import MockAmqp.Clients
import MockAmqp.Finishing
import MockAmqp.Inspection

/-!
# Messages that a client publishes

The messages that a client publishes on its channels arrive in the queues, each once and in order,
however its bytes are cut, its channels take turns and others act in between.
-/

namespace MockAmqp
open Exec Assembly

/-! ## What is only added to -/

/-- Nothing is removed, and messages come in at the ends of the queues. -/
structure State.Retains (s s' : State) : Prop where
  grows : s.Grows s'
  messages : ∀ q, s.messagesIn q <+: s'.messagesIn q

/-- The operation removes no name and no message of a queue. -/
structure Operation.Retaining (op : Operation) : Prop where
  reset : op.isReset = false
  purges : ∀ q, op.purgesQueue q = false

/-- The action neither closes the connection nor removes anything. -/
structure Action.Spares (c : ConnId) (a : Action) : Prop where
  lost : a ≠ .connectionLost c
  reset : a ≠ .http .reset
  purge : ∀ q, a ≠ .http (.deleteMessagesOfQueue q)

section
variable {env : Env} {b : Broker} {s t u : State}

namespace State

theorem Retains.refl (s : State) : s.Retains s :=
  ⟨⟨fun _ => id, keepsTypes_progress.refl s, fun _ _ => id⟩, fun _ => List.prefix_rfl⟩

theorem Retains.trans (h : s.Retains t) (k : t.Retains u) : s.Retains u where
  grows :=
    { queue := fun q declared => k.grows.queue q (h.grows.queue q declared)
      exchange := keepsTypes_progress.trans h.grows.exchange k.grows.exchange
      bound := fun e q bound => k.grows.bound e q (h.grows.bound e q bound) }
  messages := fun q => (h.messages q).trans (k.messages q)

theorem Retains.declared (h : s.Retains t) {e : Str} (declared : s.exchanges.contains e = true) :
    t.exchanges.contains e = true := by
  obtain ⟨exchange, found⟩ := contains_iff.mp declared
  obtain ⟨exchange', kept, _⟩ := h.grows.exchange e exchange found
  exact contains_iff.mpr ⟨exchange', kept⟩

end State

theorem Operation.retains {op : Operation} (retaining : op.Retaining) (h : b.state.Integral) :
    b.state.Retains (op.step env b).state where
  grows := op.step_grows env b h retaining.reset
  messages := fun q => by
    rw [(op.step_effect env b h).messagesIn, retaining.purges]
    exact List.prefix_append _ _

/-- A turn other than these requests. -/
theorem turn_retains {t : Turn} (h : b.state.Integral) (reset : t ≠ .http .reset)
    (purge : ∀ q, t ≠ .http (.deleteMessagesOfQueue q)) :
    b.state.Retains (Turn.step env b t).state := by
  rw [turn_state]
  cases asked : t.operation b with
  | none => exact State.Retains.refl _
  | some op =>
      refine Operation.retains ⟨?_, fun q => ?_⟩ h
      all_goals
        cases t with
        | frame c f =>
            obtain ⟨call, _, rfl⟩ := Option.map_eq_some_iff.mp asked
            rfl
        | http op' =>
            cases asked
            cases op' with
            | reset => exact absurd rfl reset
            | deleteMessagesOfQueue q' => exact absurd rfl (purge q')
            | _ => rfl
        | _ => cases asked

theorem turns_retain {turns : List Turn} (h : b.state.Integral)
    (reset : .http .reset ∉ turns) (purge : ∀ q, .http (.deleteMessagesOfQueue q) ∉ turns) :
    b.state.Retains (Runs.run (Turn.step env) b turns).state := by
  induction turns generalizing b with
  | nil => exact State.Retains.refl _
  | cons t rest ih =>
      have first : b.state.Retains (Turn.step env b t).state :=
        turn_retains h (fun same => reset (same ▸ List.mem_cons_self))
          fun q same => purge q (same ▸ List.mem_cons_self)
      exact first.trans (ih (integral_turn env b t h)
        (fun no => reset (List.mem_cons_of_mem t no))
        fun q no => purge q (List.mem_cons_of_mem t no))

theorem turns_http {s : Server} {a : Action} {op : HttpOp}
    (member : .http op ∈ Server.turns env s a) : a = .http op := by
  cases a with
  | dataReceived c data =>
      simp only [Server.turns] at member
      split at member
      · cases member
      · split at member
        · split at member
          · cases member
          · split at member <;> cases List.mem_singleton.mp member
        · simp at member
  | connectionLost c => simp [Server.turns] at member
  | http op' =>
      cases List.mem_singleton.mp member
      rfl

theorem step_retains {c : ConnId} {s : Server} {a : Action} (spares : a.Spares c)
    (h : s.broker.state.Integral) :
    s.broker.state.Retains (Server.step env s a).broker.state := by
  rw [Server.step_refines]
  exact turns_retain h (fun no => spares.reset (turns_http no))
    fun q no => spares.purge q (turns_http no)

end

/-! ## A frame of a message is treated to the end -/

/-- What becomes of a connection as long as it is not closed. -/
structure Stays (c : ConnId) (b b' : Broker) : Prop where
  parser : SameParser c b b'
  closing : b'.isClosing c = b.isClosing c

section
variable {env : Env} {c : ConnId} {n : Nat} {f : FrameValue} {b b' : Broker}
variable {stage : Stage Str Header UInt8} {part : Part Str Header UInt8}

theorem Stays.trans {b'' : Broker} (h : Stays c b b') (k : Stays c b' b'') : Stays c b b'' :=
  ⟨k.parser.trans h.parser, k.closing.trans h.closing⟩

theorem stays_received : Stays c b (b.received c f) :=
  ⟨b.received_parserState, received_closing⟩

theorem stays_setChannel (channel : Channel) (b : Broker) :
    Stays c b (after (setChannel c n channel) b) := by
  have moved : (after (setChannel c n channel) b).trackers c = _ := b.setTracker_self c _
  exact ⟨by rw [SameParser, moved], setChannel_closing channel b⟩

theorem stays_call (op : Call) (b : Broker) : Stays c b (after (call env c op) b) := by
  rw [after_call]
  exact ⟨rfl, rfl⟩

/-- The frame is treated, and its connection stays. -/
def Treated (env : Env) (c : ConnId) (f : FrameValue) (b : Broker) : Prop :=
  ∃ b', dispatch env c f b = .ok true b' ∧ Stays c b b'

theorem treated_of (hf : f.channelNumber = n) (hn : n ≠ 0)
    (ran : treatFrameOn env c (b.channel c n) f (b.received c f) = .ok () b')
    (stays : Stays c (b.received c f) b') : Treated env c f b := by
  subst hf
  refine ⟨b', ?_, stays_received.trans stays⟩
  rw [dispatch_channel hn, bind_ok ran]
  rfl

theorem treated_ignored (hf : f.channelNumber = n) (hn : n ≠ 0)
    (ignored : treatFrameOn env c (b.channel c n) f = pure ()) : Treated env c f b :=
  treated_of hf hn (congrFun ignored _) ⟨rfl, rfl⟩

/-- The piece that completes a message is treated to the end, as the message can be stored. -/
theorem last_treated {p : Body} {message : Message} {exchange : Str}
    (hf : p.channelNumber = n) (hn : n ≠ 0) (state : (b.channel c n).state = .waitingBody)
    (named : (b.channel c n).exchange = some exchange)
    (ongoing : (b.channel c n).onGoingMessage = some message)
    (complete : (message.addContent p.content).isComplete = true)
    (integral : b.state.Integral) (declared : b.state.exchanges.contains exchange = true) :
    Treated env c (.body p) b := by
  obtain ⟨op, same⟩ : ∃ op, op = stored ⟨exchange, message.headers,
    message.content ++ p.content⟩ := ⟨_, rfl⟩
  obtain ⟨b1, first⟩ : ∃ b1, b1 = after (setChannel c p.channelNumber { b.channel c n with
    exchange := some exchange, onGoingMessage := some (message.addContent p.content) })
    (b.received c (.body p)) := ⟨_, rfl⟩
  have entered : Stays c (b.received c (.body p)) b1 := first ▸ stays_setChannel _ _
  have called : call env c op b1 = .ok true (after (call env c op) b1) := by
    have state1 : b1.state = b.state := first ▸ b.received_state
    obtain ⟨s, stores⟩ : ∃ s, op.run env b1.state = .ok true s := by
      rw [state1, same]
      exact State.storeMessage_ok env integral declared _ _
    rw [after_call]
    simp only [call, stores, after]
  have ran : treatFrameOn env c (b.channel c n) (.body p) (b.received c (.body p)) =
      .ok () (after (setChannel c p.channelNumber { b.channel c n with
        state := .opened, exchange := some exchange, onGoingMessage := none })
          (after (call env c op) b1)) := by
    rw [treatFrameOn_last state named ongoing complete, ← same]
    refine (bind_ok (show setChannel _ _ _ _ = .ok () b1 from first ▸ rfl)).trans ?_
    rw [bind_ok called]
    rfl
  exact treated_of hf hn ran ((entered.trans (stays_call op b1)).trans (stays_setChannel _ _))

variable (env) in
/-- A frame of a published message is treated to the end. -/
theorem part_treated (hn : n ≠ 0) (carries : Carries n f part)
    (stands : (b.channel c n).Stands stage) (integral : b.state.Integral)
    (declared : ∀ item, completed stage part = some item →
      b.state.exchanges.contains item.destination = true) : Treated env c f b := by
  have hf := carries.channel
  cases carries with
  | @publish m exchange routingKey channel method named routed =>
      have id : (FrameValue.method m).methodId = some .basicPublish := congrArg some method
      cases stands with
      | idle state none =>
          have done : treatFrameOn env c (b.channel c n) (.method m) = (do
              setChannel c m.channelNumber { b.channel c n with state := .waitingHeader }
              setChannel c m.channelNumber { b.channel c n with
                state := .waitingHeader, exchange := some exchange }
              setChannel c m.channelNumber { b.channel c n with
                state := .waitingHeader, exchange := some exchange
                routingKey := some routingKey }) := by
            rw [treatFrameOn_opened state (by simp [id])]
            unfold treatOpenedChannelFrame
            simp only [id, argStr_method named, argStr_method routed]
            rfl
          exact treated_of hf hn (congrFun done _)
            (((stays_setChannel _ _).trans (stays_setChannel _ _)).trans (stays_setChannel _ _))
      | announced state stored =>
          exact treated_ignored hf hn (treatFrameOn_publishing (.inl state) id (by decide))
      | collecting state stored ongoing =>
          exact treated_ignored hf hn (treatFrameOn_publishing (.inr state) id (by decide))
  | @header h channel =>
      cases stands with
      | idle state none =>
          refine treated_ignored hf hn ?_
          rw [treatFrameOn_opened state (by simp [FrameValue.methodId])]
          rfl
      | announced state stored =>
          exact treated_of hf hn (congrFun (treatFrameOn_waitingHeader state) _)
            (stays_setChannel _ _)
      | collecting state stored ongoing =>
          refine treated_ignored hf hn ?_
          rw [treatFrameOn_waitingBody state rfl]
          rfl
  | @body p channel =>
      cases stands with
      | idle state none =>
          refine treated_ignored hf hn ?_
          rw [treatFrameOn_opened state (by simp [FrameValue.methodId])]
          rfl
      | announced state stored =>
          refine treated_ignored hf hn ?_
          unfold treatFrameOn
          rw [if_neg (by simp [state]), if_neg (by simp [FrameValue.methodId])]
          simp only [state]
      | @collecting exchange message state named ongoing =>
          by_cases whole : message.headers.bodySize = (message.content ++ p.content).length
          · have complete : (message.addContent p.content).isComplete = true := decide_eq_true whole
            simp only [completed, if_pos whole, Option.some.injEq, forall_eq'] at declared
            exact last_treated hf hn state named ongoing complete integral declared
          · have more : (message.addContent p.content).isComplete = false := decide_eq_false whole
            exact treated_of hf hn (congrFun (treatFrameOn_more state ongoing more) _)
              (stays_setChannel _ _)

theorem part_asks (carries : Carries n f part) (stands : (b.channel c n).Stands stage) :
    (b.channel c n).asks c f = (completed stage part).map stored := by
  unfold Channel.asks
  cases stands with
  | idle state none =>
      simp only [state]
      cases carries with
      | @publish m exchange routingKey channel method named routed =>
          have id : (FrameValue.method m).methodId = some .basicPublish := congrArg some method
          simp only [FrameValue.request, id]
          rfl
      | _ => rfl
  | announced state named =>
      simp only [state]
      cases carries <;> rfl
  | @collecting exchange message state named ongoing =>
      simp only [state]
      cases carries with
      | @body p channel =>
          simp only [Channel.completed, ongoing, named, completed]
          by_cases whole : message.headers.bodySize = (message.content ++ p.content).length
          · have complete : (message.addContent p.content).isComplete = true := decide_eq_true whole
            rw [if_pos complete, if_pos whole]
            rfl
          · have more : ¬ (message.addContent p.content).isComplete = true :=
              decide_eq_true_iff.not.mpr whole
            rw [if_neg more, if_neg whole]
            rfl
      | _ => rfl

end

/-! ## What is called for a connection -/

def Event.calledBy (c : ConnId) : Event → Option (Call × Option Bool)
  | .call c' op result => if c' = c then some (op, result) else none
  | _ => none

/-- The operations called for a connection, with their results. -/
def Broker.callsOf (b : Broker) (c : ConnId) : List (Call × Option Bool) :=
  b.trace.filterMap (Event.calledBy c)

section
variable {env : Env} {c : ConnId} {f : FrameValue} {b b' : Broker}

theorem calledBy_own {e : Event} (own : e.conn = some c) : e.calledBy c = e.called := by
  cases e with
  | call c' op result =>
      cases own
      exact if_pos rfl
  | _ => rfl

theorem calledBy_other {e : Event} (other : e.conn ≠ some c) : e.calledBy c = none := by
  cases e with
  | call c' op result => exact if_neg fun same => other (congrArg some same)
  | _ => rfl

theorem frame_callsOf : (Turn.step env b (.frame c f)).callsOf c =
    b.callsOf c ++ (Turn.frame c f).calls env b := by
  obtain ⟨new, trace, own⟩ := (dispatch_byConn env c f b).events
  have grown : (Turn.step env b (.frame c f)).trace = b.trace ++ new := trace
  rw [Turn.calls_of_trace grown, Broker.callsOf, grown, List.filterMap_append]
  congr 1
  exact List.filterMap_congr fun e member => calledBy_own (own e member).conn

theorem Untouched.callsOf (h : Untouched c b b') : b'.callsOf c = b.callsOf c := by
  obtain ⟨new, trace, other⟩ := h.events
  have none : new.filterMap (Event.calledBy c) = [] :=
    List.filterMap_eq_nil_iff.mpr fun e member => calledBy_other (other e member)
  rw [Broker.callsOf, trace, List.filterMap_append, none, List.append_nil]
  rfl

end

/-! ## What arrives in the queues -/

def messageOf (item : Item Str Header UInt8) : StoredMessage where
  headers := .dict item.header.properties.entries
  body := .bytes item.content

/-- Of these messages, in order and among others, each is now in all the queues that were bound to
its exchange. -/
def Filled (start : State) (items : List (Item Str Header UInt8)) (s : State) : Prop :=
  ∀ q, ∃ new, s.messagesIn q = start.messagesIn q ++ new ∧
    ((items.filter fun item => start.isBound item.destination q).map messageOf).Sublist new

section
variable {env : Env} {start s t : State} {items : List (Item Str Header UInt8)}

theorem Filled.retains (h : Filled start items s) (k : s.Retains t) : Filled start items t := by
  intro q
  obtain ⟨new, split, within⟩ := h q
  obtain ⟨more, rest⟩ := k.messages q
  refine ⟨new ++ more, ?_, within.trans (List.sublist_append_left _ _)⟩
  rw [← rest, split, List.append_assoc]

theorem Filled.store {b : Broker} {item : Item Str Header UInt8} (h : Filled start items b.state)
    (retains : start.Retains b.state) (integral : b.state.Integral) :
    Filled start (items ++ [item]) (after ((stored item).run env) b.state) := by
  intro q
  obtain ⟨new, split, within⟩ := h q
  have effect := (Operation.step_effect env b (.call (stored item)) integral).messagesIn q
  rw [Operation.step, after_onState] at effect
  refine ⟨new ++ (Operation.call (stored item)).forQueue b.state.names q, ?_, ?_⟩
  · rw [← List.append_assoc, ← split]
    exact effect
  · rw [List.filter_append, List.map_append]
    refine within.append ?_
    by_cases bound : start.isBound item.destination q = true
    · have still : b.state.names.bound item.destination q = true := retains.grows.bound _ _ bound
      have arrives : (Operation.call (stored item)).forQueue b.state.names q =
          [messageOf item] := if_pos still
      rw [arrives]
      exact List.filter_sublist.map messageOf
    · have nothing : [item].filter (fun item => start.isBound item.destination q) = [] := by
        simpa using bound
      rw [nothing]
      exact List.nil_sublist _

end

/-! ## Channels taking turns -/

/-- The connection is opened, with nothing in its buffer, and so are the channels that messages go
over, for exchanges that exist. -/
structure Ready (c : ConnId) (messages : Nat → List (Parcel Str Header UInt8)) (s : Server) :
    Prop where
  live : s.broker.isClosing c = false
  opened : (s.broker.trackers c).parserState = .opened
  buffer : s.buffers c = []
  channels : ∀ n, messages n ≠ [] → n ≠ 0 ∧ (s.broker.channel c n).state = .opened
  declared : ∀ n, ∀ m ∈ messages n, s.broker.state.exchanges.contains m.destination = true

/-- The frames carry the messages of each channel, with heartbeats among them. -/
structure Sends (messages : Nat → List (Parcel Str Header UInt8)) (frames : List FrameValue) :
    Prop where
  beats : ∀ f ∈ frames, f.channelNumber = 0 → ∃ size, f = .heartBeat size
  carries : ∀ n, n ≠ 0 →
    List.Forall₂ (Carries n) (frames.filter fun f => f.channelNumber = n) (stream (messages n))

/-- How far the channels have come with their messages, and what they have stored. -/
structure Uploading (c : ConnId) (start : Broker)
    (messages : Nat → List (Parcel Str Header UInt8)) (todo : List FrameValue) (b : Broker)
    (stages : Nat → Stage Str Header UInt8) (parts : Nat → List (Part Str Header UInt8))
    (done : List (Nat × Item Str Header UInt8)) : Prop where
  live : b.isClosing c = false
  opened : (b.trackers c).parserState = .opened
  integral : b.state.Integral
  retains : start.state.Retains b.state
  beats : ∀ f ∈ todo, f.channelNumber = 0 → ∃ size, f = .heartBeat size
  carries : ∀ n, n ≠ 0 →
    List.Forall₂ (Carries n) (todo.filter fun f => f.channelNumber = n) (parts n)
  idle : ∀ n, messages n = [] → parts n = []
  stands : ∀ n, messages n ≠ [] → (b.channel c n).Stands (stages n)
  ending : ∀ n, messages n ≠ [] → Runs.run next (stages n) (parts n) = .idle
  account : ∀ n, (done.filter fun i => i.1 = n).map Prod.snd ++ assembled (stages n) (parts n) =
    (messages n).map Parcel.item
  calls : b.callsOf c = start.callsOf c ++ done.map fun i => (stored i.2, some true)
  filled : Filled start.state (done.map Prod.snd) b.state

/-- What the connection sees of the actions of others. -/
structure Beside (c : ConnId) (b b' : Broker) : Prop extends Stays c b b' where
  channels : SameChannels c b b'
  calls : b'.callsOf c = b.callsOf c

section
variable {env : Env} {c : ConnId} {start b b' : Broker} {f : FrameValue} {todo : List FrameValue}
variable {messages : Nat → List (Parcel Str Header UInt8)} {stages : Nat → Stage Str Header UInt8}
variable {parts : Nat → List (Part Str Header UInt8)} {done : List (Nat × Item Str Header UInt8)}

theorem Beside.channel (h : Beside c b b') (n : Nat) : b'.channel c n = b.channel c n := by
  unfold Broker.channel
  rw [h.channels]

theorem Uploading.beside (h : Uploading c start messages todo b stages parts done)
    (beside : Beside c b b') (integral : b'.state.Integral) (retains : b.state.Retains b'.state) :
    Uploading c start messages todo b' stages parts done where
  live := beside.closing.trans h.live
  opened := beside.parser.trans h.opened
  integral := integral
  retains := h.retains.trans retains
  beats := h.beats
  carries := h.carries
  idle := h.idle
  stands := fun n some => by
    rw [beside.channel]
    exact h.stands n some
  ending := h.ending
  account := h.account
  calls := beside.calls.trans h.calls
  filled := h.filled.retains retains

theorem heartBeat_beside (env : Env) (c : ConnId) (size : Nat) (b : Broker) :
    ∃ b', dispatch env c (.heartBeat size) b = .ok true b' ∧ Beside c b b' ∧
      b'.state = b.state := by
  obtain ⟨t, sent, closing⟩ : ∃ t, Reply.heartbeat.send (b.trackers c).transport = .ok () t ∧
      t.closing = (b.trackers c).transport.closing := ⟨_, rfl, rfl⟩
  have replied := reply_ok (c := c) (b := b.recorded c (.heartBeat size)) sent
  have done : dispatch env c (.heartBeat size) b = (pure true : OnBroker Bool) _ :=
    (dispatch_heartBeat size).trans (bind_ok replied)
  refine ⟨_, done, ⟨⟨?_, ?_⟩, ?_, ?_⟩, rfl⟩
  · simp [SameParser, Broker.recorded]
  · simp [Broker.isClosing, closing]
  · simp [SameChannels, Broker.recorded]
  · simp [Broker.callsOf, Broker.recorded, Event.calledBy]

variable (env) in
/-- A frame of a message, for its own channel. -/
theorem Uploading.frame (h : Uploading c start messages (f :: todo) b stages parts done)
    (declared : ∀ n, ∀ m ∈ messages n, start.state.exchanges.contains m.destination = true)
    (hn : f.channelNumber ≠ 0) : ∃ b' stages' parts' done', dispatch env c f b = .ok true b' ∧
      Uploading c start messages todo b' stages' parts' done' := by
  obtain ⟨n, hf⟩ : ∃ n, f.channelNumber = n := ⟨_, rfl⟩
  rw [hf] at hn
  have carries := h.carries n hn
  rw [List.filter_cons_of_pos (by simpa using hf)] at carries
  obtain ⟨part, rest, carried, later, split⟩ : ∃ part rest, Carries n f part ∧
      List.Forall₂ (Carries n) (todo.filter fun f => f.channelNumber = n) rest ∧
        parts n = part :: rest := by
    revert carries
    generalize parts n = l
    intro carries
    cases carries with
    | cons carried later => exact ⟨_, _, carried, later, rfl⟩
  have some : messages n ≠ [] := by
    intro none
    rw [h.idle n none] at split
    cases split
  have stands := h.stands n some
  have account := h.account n
  have ending := h.ending n some
  rw [split, assembled] at account
  rw [split, Runs.run_cons] at ending
  have exchange : ∀ item, completed (stages n) part = .some item →
      b.state.exchanges.contains item.destination = true := by
    intro item complete
    have member : item ∈ (messages n).map Parcel.item := by
      rw [← account, complete]
      simp
    obtain ⟨m, mem, rfl⟩ := List.mem_map.mp member
    exact h.retains.declared (declared n m mem)
  obtain ⟨b', treated, stays⟩ := part_treated env hn carried stands h.integral exchange
  have step : Turn.step env b (.frame c f) = b' := after_ok treated
  obtain ⟨moved, calls⟩ : Follows env c n b f (stages n) part :=
    part_step hn carried stands h.integral exchange
  have state := @dispatch_state env b c f
  have asks : b.asks c f = (completed (stages n) part).map stored := by
    rw [Broker.asks, if_pos (hf.trans_ne hn), hf]
    exact part_asks carried stands
  rw [after_ok treated, asks] at state
  have kept : b.state.Retains b'.state ∧
      Filled start.state (done.map Prod.snd ++ (completed (stages n) part).toList) b'.state := by
    cases complete : completed (stages n) part with
    | none =>
        rw [complete] at state
        have same : b'.state = b.state := state
        rw [same]
        simpa using ⟨State.Retains.refl _, h.filled⟩
    | some item =>
        rw [complete] at state
        have after_store : b'.state = after ((stored item).run env) b.state := state
        have stepped : (Operation.step env b (.call (stored item))).state = b'.state := by
          rw [after_store, Operation.step, after_onState]
        refine ⟨?_, ?_⟩
        · rw [← stepped]
          exact Operation.retains ⟨rfl, fun _ => rfl⟩ h.integral
        · rw [after_store]
          exact h.filled.store h.retains h.integral
  obtain ⟨retains, filled⟩ := kept
  refine ⟨b', Function.update stages n (next (stages n) part), Function.update parts n rest,
    done ++ (completed (stages n) part).toList.map (n, ·), treated, ?_⟩
  have at_others : ∀ {β : Type} (g : Nat → β) (x : β) {m : Nat}, m ≠ n →
      Function.update g n x m = g m := fun g x _ other => Function.update_of_ne other x g
  constructor
  case live => exact stays.closing.trans h.live
  case opened => exact stays.parser.trans h.opened
  case integral =>
    rw [← step]
    exact integral_turn env b _ h.integral
  case retains => exact h.retains.trans retains
  case beats => exact fun g member => h.beats g (List.mem_cons_of_mem f member)
  case carries =>
    intro m hm
    by_cases same : m = n
    · subst same
      rwa [Function.update_self]
    · have others := h.carries m hm
      rw [List.filter_cons_of_neg (by simpa [hf] using Ne.symm same)] at others
      rwa [at_others _ _ same]
  case idle =>
    intro m none
    have other : m ≠ n := fun same => some (same ▸ none)
    rw [at_others _ _ other]
    exact h.idle m none
  case stands =>
    intro m more
    by_cases same : m = n
    · subst same
      rw [Function.update_self, ← step]
      exact moved
    · have frame : (Turn.frame c f).frameOn c m = .none :=
        if_neg fun on => same (on.2.symm.trans hf)
      rw [at_others _ _ same, ← step, turn_channel frame]
      exact h.stands m more
  case ending =>
    intro m more
    by_cases same : m = n
    · subst same
      rw [Function.update_self, Function.update_self]
      exact ending
    · rw [at_others _ _ same, at_others _ _ same]
      exact h.ending m more
  case account =>
    intro m
    by_cases same : m = n
    · subst same
      rw [Function.update_self, Function.update_self, ← account]
      simp [List.filter_map, Function.comp_def]
    · rw [at_others _ _ same, at_others _ _ same, ← h.account m]
      simp [List.filter_map, Function.comp_def, Ne.symm same]
  case calls =>
    rw [← step, frame_callsOf, h.calls, calls]
    simp
  case filled => simpa [Function.comp_def] using filled

/-- What holds with these frames still to come. -/
def Uploads (c : ConnId) (start : Broker) (messages : Nat → List (Parcel Str Header UInt8))
    (todo : List FrameValue) (b : Broker) : Prop :=
  ∃ stages parts done, Uploading c start messages todo b stages parts done

theorem uploads_plays
    (declared : ∀ n, ∀ m ∈ messages n, start.state.exchanges.contains m.destination = true) :
    Framing.Plays (dispatch env c) (Uploads c start messages) := by
  rintro f todo b ⟨stages, parts, done, h⟩
  by_cases hn : f.channelNumber = 0
  · obtain ⟨size, rfl⟩ := h.beats f List.mem_cons_self hn
    obtain ⟨b', beat, beside, state⟩ := heartBeat_beside env c size b
    have passed : Uploading c start messages todo b stages parts done :=
      { h with
        beats := fun g member => h.beats g (List.mem_cons_of_mem _ member)
        carries := fun n hn => by
          have carries := h.carries n hn
          have other : ¬ (FrameValue.heartBeat size).channelNumber = n := Ne.symm hn
          rwa [List.filter_cons_of_neg (by simpa using other)] at carries }
    refine ⟨true, b', beat, .inl rfl, stages, parts, done, passed.beside beside ?_ ?_⟩
    · rw [state]
      exact h.integral
    · rw [state]
      exact State.Retains.refl _
  · obtain ⟨b', stages', parts', done', treated, next⟩ := h.frame env declared hn
    exact ⟨true, b', treated, .inl rfl, stages', parts', done', next⟩

theorem step_integral {s : Server} (a : Action) (h : s.broker.state.Integral) :
    (Server.step env s a).broker.state.Integral := by
  rw [Server.step_refines]
  exact Runs.invariant (I := fun b : Broker => b.state.Integral) (integral_turn env) h _

theorem step_beside {s : Server} {a : Action} (other : ∀ data, a ≠ .dataReceived c data)
    (lost : a ≠ .connectionLost c) : Beside c s.broker (Server.step env s a).broker := by
  obtain ⟨_, parser, closing⟩ := @Server.step_other env c s a other lost
  have untouched := (step_untouched env s other).2
  exact ⟨⟨parser, closing⟩, untouched.channels, untouched.callsOf⟩

theorem uploads_script
    (declared : ∀ n, ∀ m ∈ messages n, start.state.exchanges.contains m.destination = true) :
    Script env c (Action.Spares c) (Uploads c start messages) where
  kept := Action.Spares.lost
  plays := uploads_plays declared
  live := fun ⟨_, _, _, h⟩ => h.live
  started := by
    rintro todo b ⟨_, _, _, h⟩
    simp [h.opened]
  others := by
    rintro todo s a spares other ⟨stages, parts, done, h⟩
    exact ⟨stages, parts, done, h.beside (step_beside other spares.lost)
      (step_integral a h.integral) (step_retains spares h.integral)⟩

end

/-- The connection is ready again. What it has called since are the operations that store the
messages, those of each channel once and in order, and they have gone to the queues. -/
structure Uploaded (c : ConnId) (messages : Nat → List (Parcel Str Header UInt8)) (s r : Server) :
    Prop where
  ready : Ready c messages r
  arrived : ∃ items : List (Nat × Item Str Header UInt8),
    (∀ n, (items.filter fun i => i.1 = n).map Prod.snd = (messages n).map Parcel.item) ∧
      r.broker.callsOf c = s.broker.callsOf c ++ items.map (fun i => (stored i.2, some true)) ∧
      Filled s.broker.state (items.map Prod.snd) r.broker.state

/-- Messages that are not empty, for exchanges that are declared, sent over the channels of a
connection in any interleaving and with their bytes cut in any way, are stored each once and in
order, and are found in the queues, whatever others do meanwhile but remove messages or the
connection. -/
theorem uploads_complete (env : Env) (draws : Nat → Draw) {c : ConnId}
    {before later : List Action} {messages : Nat → List (Parcel Str Header UInt8)}
    {frames : List (RawFrame × FrameValue)}
    (ready : Ready c messages (Runs.run (Server.step env) (Server.init env draws) before))
    (nonempty : ∀ n, ∀ m ∈ messages n, m.content ≠ [])
    (sends : Sends messages (frames.map Prod.snd))
    (brings : Brings c (Action.Spares c) frames later) :
    Uploaded c messages (Runs.run (Server.step env) (Server.init env draws) before)
      (Runs.run (Server.step env) (Server.init env draws) (before ++ later)) := by
  have reachable : Reachable env
      (Runs.run (Server.step env) (Server.init env draws) before).broker := ⟨draws, before, rfl⟩
  revert ready reachable
  rw [Runs.run_append]
  generalize Runs.run (Server.step env) (Server.init env draws) before = s
  intro ready reachable
  have start : Uploads c s.broker messages (frames.map Prod.snd) s.broker := by
    refine ⟨fun _ => .idle, fun n => stream (messages n), [], ?_⟩
    exact {
      live := ready.live
      opened := ready.opened
      integral := reachable_integral reachable
      retains := State.Retains.refl _
      beats := sends.beats
      carries := sends.carries
      idle := fun n none => by rw [none]; rfl
      stands := fun n some => by
        have opened := (ready.channels n some).2
        exact .idle opened ((reachable_tidy reachable).channel c n (by simp [opened]))
      ending := fun n _ => (run_stream (nonempty n)).1
      account := fun n => (run_stream (nonempty n)).2
      calls := (List.append_nil _).symm
      filled := fun q => ⟨[], (List.append_nil _).symm, List.Sublist.refl _⟩ }
  have script : Script env c (Action.Spares c) (Uploads c s.broker messages) :=
    uploads_script ready.declared
  obtain ⟨empty, stages, parts, done, ended⟩ := script.completes brings ready.buffer start
  have none_left : ∀ n, parts n = [] := by
    intro n
    by_cases none : messages n = []
    · exact ended.idle n none
    · have carries := ended.carries n (ready.channels n none).1
      rw [List.filter_nil] at carries
      exact List.forall₂_nil_left_iff.mp carries
  refine ⟨⟨ended.live, ended.opened, empty, fun n some => ⟨(ready.channels n some).1, ?_⟩,
    fun n m member => ended.retains.declared (ready.declared n m member)⟩,
    done, fun n => ?_, ended.calls, ended.filled⟩
  · have stands := ended.stands n some
    have ending := ended.ending n some
    rw [none_left n, Runs.run_nil] at ending
    rw [ending] at stands
    exact stands.of_idle.1
  · rw [← ended.account n, none_left n]
    exact (List.append_nil _).symm

/-! ## Two channels of one client -/

def publishRaw (n : UInt16) : RawFrame :=
  ⟨1, n, [0, 60, 0, 40, 0, 0, 0, 1, 0x71, 0], by decide⟩

def headerRaw (n : UInt16) (bodySize : UInt8) : RawFrame :=
  ⟨2, n, [0, 60, 0, 0, 0, 0, 0, 0, 0, 0, 0, bodySize, 0, 0], by simp⟩

def bodyRaw (n : UInt16) (x : UInt8) : RawFrame := ⟨3, n, [x], by simp⟩

/-- Channels 1 and 2 take turns, with a heartbeat in between. -/
def twoUploads : List (RawFrame × FrameValue) :=
  [(publishRaw 1, publishFrame 1), (publishRaw 2, publishFrame 2),
    (headerRaw 2 1, .header (headerOf 2 1)), (headerRaw 1 2, .header (headerOf 1 2)),
    (bodyRaw 1 7, bodyFrame 1 [7]), (⟨8, 0, [], empty_fits⟩, .heartBeat 8),
    (bodyRaw 2 8, bodyFrame 2 [8]), (bodyRaw 1 9, bodyFrame 1 [9])]

theorem headerRaw_decodes (n : UInt16) {bodySize : UInt8}
    (fields : unpackFrom 2 (slice (headerRaw n bodySize).payload 0 14) 0 = .ok 60 ∧
      unpackFrom 8 (slice (headerRaw n bodySize).payload 0 14) 4 = .ok bodySize.toNat ∧
      unpackFrom 2 (slice (headerRaw n bodySize).payload 0 14) 12 = .ok 0) :
    (headerRaw n bodySize).Decodes (.header (headerOf n.toNat bodySize.toNat)) := by
  obtain ⟨classId, size, flags⟩ := fields
  have made : Header.make n.toNat 22 60 bodySize.toNat 0 (headerRaw n bodySize).payload =
      .ok (headerOf n.toNat bodySize.toNat) := by
    simp [Header.make, loads, loadAll, headerOf, OrderedDict.ofList]
  have kind : (headerRaw n bodySize).frameType.toNat = 2 := rfl
  unfold RawFrame.Decodes decodePayload
  rw [kind, if_neg (by decide), if_neg (by decide), if_pos rfl, classId, size, flags]
  show (do return some (FrameValue.header (← Header.make n.toNat 22 60 bodySize.toNat 0
    (headerRaw n bodySize).payload))) = _
  rw [made]
  rfl

theorem two_uploads_decode : ∀ p ∈ twoUploads, p.1.Decodes p.2 := by
  simp only [twoUploads, List.forall_mem_cons, List.not_mem_nil, false_implies, implies_true,
    and_true]
  refine ⟨rfl, rfl, ?_, ?_, rfl, rfl, rfl, rfl⟩
  · exact headerRaw_decodes 2 (by decide)
  · exact headerRaw_decodes 1 (by decide)

def twoMessages : Nat → List (Parcel Str Header UInt8)
  | 1 => [parcelOf 1 [[7], [9]] (by simp)]
  | 2 => [parcelOf 2 [[8]] (by simp)]
  | _ => []

theorem two_uploads_sent : Sends twoMessages (twoUploads.map Prod.snd) where
  beats := by
    simp only [twoUploads, List.map_cons, List.map_nil, List.forall_mem_cons, List.not_mem_nil,
      false_implies, implies_true, and_true]
    refine ⟨?_, ?_, ?_, ?_, ?_, fun _ => ⟨8, rfl⟩, ?_, ?_⟩
    all_goals
      intro zero
      cases zero
  carries := by
    intro n hn
    by_cases one : n = 1
    · subst one
      exact .cons (.publish rfl rfl rfl rfl) (.cons (.header rfl) (.cons (.body rfl)
        (.cons (.body rfl) .nil)))
    by_cases two : n = 2
    · subst two
      exact .cons (.publish rfl rfl rfl rfl) (.cons (.header rfl) (.cons (.body rfl) .nil))
    have none : (twoUploads.map Prod.snd).filter (fun f => f.channelNumber = n) = [] := by
      simp only [twoUploads, List.map_cons, List.map_nil, List.filter_eq_nil_iff,
        List.forall_mem_cons, List.not_mem_nil, false_implies, implies_true, and_true,
        decide_eq_true_eq]
      exact ⟨Ne.symm one, Ne.symm two, Ne.symm two, Ne.symm one, Ne.symm one, Ne.symm hn,
        Ne.symm two, Ne.symm one⟩
    have nothing : twoMessages n = [] := by
      unfold twoMessages
      split <;> simp_all
    rw [none, nothing]
    exact .nil

/-- Channels 1 and 2 are opened, and a queue is declared. -/
def twoChannels : List Action :=
  logIn 0 ++ [.dataReceived 0 (methodBytes 2 20 10 "s" [.str []]), .http (.declareQueue (str "q"))]

/-- The bytes arrive in three pieces, while others come and go. -/
def twoUploading : List Action :=
  let bytes := (twoUploads.map fun p => p.1.bytes).flatten
  [.dataReceived 0 (bytes.take 40), .dataReceived 1 PROTOCOL_HEADER,
    .dataReceived 0 ((bytes.drop 40).take 33), .http (.declareQueue (str "r")), .connectionLost 1,
    .dataReceived 0 ((bytes.drop 40).drop 33)]

theorem two_uploads_brought : Brings 0 (Action.Spares 0) twoUploads twoUploading where
  decodes := two_uploads_decode
  sent := by
    unfold twoUploading
    generalize (twoUploads.map fun p => p.1.bytes).flatten = bytes
    show bytes.take 40 ++ ((bytes.drop 40).take 33 ++ ((bytes.drop 40).drop 33 ++ [])) = bytes
    rw [List.append_nil, List.take_append_drop, List.take_append_drop]
  allowed := by
    intro a member
    simp only [twoUploading, List.mem_cons, List.not_mem_nil, or_false] at member
    rcases member with rfl | rfl | rfl | rfl | rfl | rfl
    all_goals exact ⟨by simp, by simp, by simp⟩

theorem two_channels_ready : Ready 0 twoMessages (session twoChannels) := by
  have states : (session twoChannels).broker.isClosing 0 = false ∧
      ((session twoChannels).broker.trackers 0).parserState = .opened ∧
      (session twoChannels).buffers 0 = [] ∧
      ((session twoChannels).broker.channel 0 1).state = .opened ∧
      ((session twoChannels).broker.channel 0 2).state = .opened ∧
      (session twoChannels).broker.state.exchanges.contains [] = true := by decide +kernel
  obtain ⟨live, opened, buffer, first, second, declared⟩ := states
  refine ⟨live, opened, buffer, fun n some => ?_, fun n m member => ?_⟩
  · unfold twoMessages at some
    split at some
    · exact ⟨by decide, first⟩
    · exact ⟨by decide, second⟩
    · exact absurd rfl some
  · unfold twoMessages at member
    split at member
    · cases List.mem_singleton.mp member
      exact declared
    · cases List.mem_singleton.mp member
      exact declared
    · cases member

theorem two_channels_upload :
    Uploaded 0 twoMessages (session twoChannels) (session (twoChannels ++ twoUploading)) := by
  have nonempty : ∀ n, ∀ m ∈ twoMessages n, m.content ≠ [] := by
    intro n m member
    unfold twoMessages at member
    split at member
    · cases List.mem_singleton.mp member
      decide
    · cases List.mem_singleton.mp member
      decide
    · cases member
  exact uploads_complete guestEnv _ two_channels_ready nonempty two_uploads_sent two_uploads_brought

end MockAmqp
