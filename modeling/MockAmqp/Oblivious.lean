import MockAmqp.Lib.Lockstep
import MockAmqp.Consumers
import MockAmqp.ContentHeader
import MockAmqp.Input
import MockAmqp.Output

/-!
# What does not matter to the server

Two brokers that differ in what has been written, in what some events say and in parts of the state
treat frames alike.
-/

namespace MockAmqp
open Exec

/-- How two brokers are compared: what relates their states and the tags they will draw, what is
seen of an event, which connections are looked at, and what was seen in the first one before the
second one started. -/
structure Likeness (β : Type) where
  state : State → State → Prop
  draw : Draw → Draw → Prop
  sees : Event → Option β
  knows : ConnId → Prop := fun _ => True
  past : List β := []

/-- The brokers do not differ in anything that is compared. What has been written is not. -/
structure Alike {β : Type} (l : Likeness β) (b b' : Broker) : Prop where
  state : l.state b.state b'.state
  draws : ∀ n, l.draw (b.draws n) (b'.draws n)
  parser : ∀ c, l.knows c → (b.trackers c).parserState = (b'.trackers c).parserState
  channels : ∀ c, l.knows c → (b.trackers c).channels = (b'.trackers c).channels
  closing : ∀ c, l.knows c → b.isClosing c = b'.isClosing c
  trace : b.trace.filterMap l.sees = l.past ++ b'.trace.filterMap l.sees

/-- Transports that are both closing or both not. -/
def SameClosing (t t' : Transport) : Prop := t.closing = t'.closing

section
variable {β : Type} {l : Likeness β} {env env' : Env} {c : ConnId} {b b' : Broker}

theorem Alike.stored {S : State → State → Prop} (h : Alike l b b')
    (states : S b.state b'.state) : Alike { l with state := S } b b' :=
  ⟨states, h.draws, h.parser, h.channels, h.closing, h.trace⟩

theorem Alike.logged (h : Alike l b b') {e e' : Event} (same : l.sees e = l.sees e') :
    Alike l { b with trace := b.trace ++ [e] } { b' with trace := b'.trace ++ [e'] } where
  state := h.state
  draws := h.draws
  parser := h.parser
  channels := h.channels
  closing := h.closing
  trace := by
    show (b.trace ++ [e]).filterMap l.sees = l.past ++ (b'.trace ++ [e']).filterMap l.sees
    rw [List.filterMap_append, List.filterMap_append, h.trace, List.append_assoc]
    simp only [List.filterMap_cons, List.filterMap_nil, same]

theorem Alike.tracked (h : Alike l b b') {t t' : Tracker}
    (parser : l.knows c → t.parserState = t'.parserState)
    (channels : l.knows c → t.channels = t'.channels)
    (closing : l.knows c → t.transport.closing = t'.transport.closing) :
    Alike l (b.setTracker c t) (b'.setTracker c t') := by
  have here : ∀ c', (c' = c ∧ (b.setTracker c t).trackers c' = t ∧
      (b'.setTracker c t').trackers c' = t') ∨
      ((b.setTracker c t).trackers c' = b.trackers c' ∧
        (b'.setTracker c t').trackers c' = b'.trackers c') := by
    intro c'
    by_cases same : c' = c
    · subst same
      exact .inl ⟨rfl, b.setTracker_self _ _, b'.setTracker_self _ _⟩
    · exact .inr ⟨b.setTracker_ne same _, b'.setTracker_ne same _⟩
  refine ⟨h.state, h.draws, fun c' known => ?_, fun c' known => ?_, fun c' known => ?_, h.trace⟩
  · rcases here c' with ⟨rfl, left, right⟩ | ⟨left, right⟩
    · rw [left, right, parser known]
    · rw [left, right, h.parser c' known]
  · rcases here c' with ⟨rfl, left, right⟩ | ⟨left, right⟩
    · rw [left, right, channels known]
    · rw [left, right, h.channels c' known]
  · unfold Broker.isClosing
    rcases here c' with ⟨rfl, left, right⟩ | ⟨left, right⟩
    · rw [left, right, closing known]
    · rw [left, right]
      exact h.closing c' known

theorem alike_log (e : Event) : Lockstep (Alike l) Eq (log e) (log e) :=
  lockstep_update fun _ _ h => h.logged rfl

/-- What a sender does must not depend on what has been written. -/
theorem alike_onTransport (known : l.knows c) {x y : Send Unit} (sent : Lockstep SameClosing Eq x y) :
    Lockstep (Alike l) Eq (onTransport c x) (onTransport c y) := by
  refine lockstep_zoom sent (fun b b' h => h.closing c known) fun b b' t t' h closing => ?_
  exact h.tracked (h.parser c) (h.channels c) fun _ => closing

theorem alike_close : Lockstep (Alike l) Eq (close c) (close c) :=
  fun _ _ h => .ok rfl (h.tracked (h.parser c) (h.channels c) fun _ => rfl)

theorem alike_reply (known : l.knows c) (r : Reply) :
    Lockstep (Alike l) Eq (reply c r) (reply c r) := by
  have sent : Lockstep SameClosing Eq r.send r.send := by
    intro t t' closing
    obtain ⟨_, ⟨e, failed⟩ | ⟨raw, _, sent⟩⟩ := r.send_whole
    · rw [failed, failed]
      exact .error closing
    · rw [sent, sent]
      exact .ok rfl closing
  exact lockstep_bind_eq (alike_onTransport known sent) fun _ => alike_log _

theorem alike_call {op : Call} (calls : Lockstep l.state Eq (op.run env) (op.run env')) :
    Lockstep (Alike l) Eq (call env c op) (call env' c op) := by
  intro b b' h
  have ran := calls _ _ h.state
  have moved : ∀ s s', l.state s s' → Alike l { b with state := s } { b' with state := s' } :=
    fun s s' states => ⟨states, h.draws, h.parser, h.channels, h.closing, h.trace⟩
  unfold call
  generalize op.run env b.state = r at ran
  generalize op.run env' b'.state = r' at ran
  cases ran with
  | ok same states =>
      subst same
      exact .ok rfl ((moved _ _ states).logged rfl)
  | error states => exact .error ((moved _ _ states).logged rfl)

theorem alike_setParserState (s : ConnectionState) :
    Lockstep (Alike l) Eq (setParserState c s) (setParserState c s) := by
  refine lockstep_bind_eq (lockstep_update fun b b' h => ?_) fun _ => alike_log _
  exact h.tracked (fun _ => rfl) (h.channels c) (h.closing c)

theorem alike_setChannel (n : Nat) (channel : Channel) :
    Lockstep (Alike l) Eq (setChannel c n channel) (setChannel c n channel) := by
  refine lockstep_update fun b b' h => h.tracked (h.parser c) (fun known => ?_) (h.closing c)
  rw [h.channels c known]

theorem alike_deleteChannel (n : Nat) :
    Lockstep (Alike l) Eq (deleteChannel c n) (deleteChannel c n) := by
  refine lockstep_update fun b b' h => h.tracked (h.parser c) (fun known => ?_) (h.closing c)
  rw [h.channels c known]

theorem alike_getChannel (known : l.knows c) (n : Nat) :
    Lockstep (Alike l) Eq (getChannel c n) (getChannel c n) := by
  intro b b' h
  unfold getChannel
  rw [h.channels c known]
  cases (b'.trackers c).channels.get? n with
  | some channel => exact .ok rfl h
  | none => exact .error h

/-! ## Frames -/

theorem upsertChannel_alike (known : l.knows c) (n : Nat) :
    Lockstep (Alike l) Eq (upsertChannel c n) (upsertChannel c n) := by
  refine lockstep_bind_eq (lockstep_read fun b b' h => ?_) fun present => ?_
  · rw [h.channels c known]
  · exact lockstep_ite (alike_setChannel n _) (lockstep_pure rfl)

/-- The call registers no consumer of another connection. -/
def Call.Own (c : ConnId) : Call → Prop
  | registerConsumer consumer _ _ _ => consumer = c
  | _ => True

section
variable (calls : ∀ op : Call, op.Own c → Lockstep l.state Eq (op.run env) (op.run env'))
include calls

theorem checkStartOk_alike (f : FrameValue) :
    Lockstep (Alike l) Eq (checkStartOk env c f) (checkStartOk env' c f) := by
  have login : ∀ credentials, Lockstep (Alike l) Eq (checkLogin env c credentials)
      (checkLogin env' c credentials) :=
    fun _ => lockstep_bind_eq (lockstep_attempt _) fun _ => alike_call (calls _ trivial)
  rw [checkStartOk_eq, checkStartOk_eq]
  refine lockstep_bind_eq (lockstep_attempt _) fun mechanism => ?_
  exact lockstep_ite (login _) (lockstep_ite (login _) (lockstep_pure rfl))

theorem treatBodyFrame_alike (n : Nat) (channel : Channel) (f : FrameValue) :
    Lockstep (Alike l) Eq (treatBodyFrame env c n channel f)
      (treatBodyFrame env' c n channel f) := by
  cases f with
  | body p =>
      unfold treatBodyFrame
      cases channel.onGoingMessage with
      | none => exact lockstep_raise _
      | some message =>
          refine lockstep_bind_eq (alike_setChannel _ _) fun _ => lockstep_ite ?_ (lockstep_pure rfl)
          cases channel.exchange with
          | none => exact lockstep_raise _
          | some exchange =>
              refine lockstep_bind_eq (alike_call (calls _ trivial)) fun ok => ?_
              exact lockstep_ite alike_close (alike_setChannel _ _)
  | _ => exact lockstep_pure rfl

variable (known : l.knows c)
include known

theorem treatOpenedChannelFrame_alike (n : Nat) (channel : Channel) (f : FrameValue) :
    Lockstep (Alike l) Eq (treatOpenedChannelFrame env c n channel f)
      (treatOpenedChannelFrame env' c n channel f) := by
  have given : ∀ {α : Type} {x : Except PyError α} {k k' : α → OnBroker Unit},
      (∀ a, Lockstep (Alike l) Eq (k a) (k' a)) →
        Lockstep (Alike l) Eq (attempt x >>= k) (attempt x >>= k') :=
    fun later => lockstep_bind_eq (lockstep_attempt _) later
  have asked : ∀ {op : Call} {k k' : Bool → OnBroker Unit}, op.Own c →
      (∀ ok, Lockstep (Alike l) Eq (k ok) (k' ok)) →
        Lockstep (Alike l) Eq (call env c op >>= k) (call env' c op >>= k') :=
    fun own later => lockstep_bind_eq (alike_call (calls _ own)) later
  have closeThen : ∀ r, Lockstep (Alike l) Eq (do close c; reply c r : OnBroker Unit)
      (do close c; reply c r) := fun r => lockstep_bind_eq alike_close fun _ => alike_reply known r
  unfold treatOpenedChannelFrame
  split
  · refine given fun name => given fun type => asked trivial fun ok => ?_
    exact lockstep_ite (closeThen _) (alike_reply known _)
  · exact given fun name => asked trivial fun ok => lockstep_ite (closeThen _) (alike_reply known _)
  · refine given fun queue => given fun exchange => asked trivial fun ok => ?_
    exact lockstep_ite alike_close (alike_reply known _)
  · exact alike_reply known _
  · refine lockstep_bind_eq (alike_setChannel _ _) fun _ => given fun exchange => ?_
    exact lockstep_bind_eq (alike_setChannel _ _) fun _ => given fun key => alike_setChannel _ _
  · exact given fun tag => given fun queue => asked rfl fun _ => alike_reply known _
  · exact given fun tag => asked trivial fun _ => lockstep_pure rfl
  · exact given fun tag => given fun requeue => asked trivial fun _ => lockstep_pure rfl
  · exact given fun tag => alike_reply known _
  · exact lockstep_pure rfl

theorem treatFrameOn_alike (channel : Channel) (f : FrameValue) :
    Lockstep (Alike l) Eq (treatFrameOn env c channel f) (treatFrameOn env' c channel f) := by
  unfold treatFrameOn
  refine lockstep_ite (lockstep_ite alike_close (lockstep_ite alike_close ?_)) (lockstep_ite ?_ ?_)
  · refine lockstep_bind_eq (alike_reply known _) fun _ => ?_
    exact lockstep_bind_eq (alike_setChannel _ _) fun _ => alike_log _
  · refine lockstep_bind_eq (alike_deleteChannel _) fun _ => ?_
    exact lockstep_bind_eq (alike_reply known _) fun _ => alike_close
  · cases channel.state with
    | waitingOpen => exact lockstep_pure rfl
    | opened => exact treatOpenedChannelFrame_alike calls known _ _ _
    | waitingHeader =>
        cases f with
        | header h =>
            refine lockstep_bind_eq (alike_setChannel _ _) fun _ => ?_
            exact treatBodyFrame_alike calls _ _ _
        | _ => exact lockstep_pure rfl
    | waitingBody => exact treatBodyFrame_alike calls _ _ _

/-- Frames are treated alike, and the loop over them goes on alike. -/
theorem dispatch_alike (f : FrameValue) :
    Lockstep (Alike l) Eq (dispatch env c f) (dispatch env' c f) := by
  have refused : Lockstep (Alike l) Eq (do close c; return false : OnBroker Bool)
      (do close c; return false) :=
    lockstep_bind_eq alike_close fun _ => lockstep_pure rfl
  have moved : ∀ s r, Lockstep (Alike l) Eq (do setParserState c s; return r : OnBroker Bool)
      (do setParserState c s; return r) :=
    fun s r => lockstep_bind_eq (alike_setParserState s) fun _ => lockstep_pure rfl
  unfold dispatch
  refine lockstep_bind_eq (lockstep_read fun b b' h => h.parser c known) fun s => ?_
  refine lockstep_bind_eq (alike_log _) fun _ => ?_
  split
  · exact lockstep_bind_eq (alike_reply known _) fun _ => lockstep_pure rfl
  · refine lockstep_ite ?_ (lockstep_ite ?_ ?_)
    · refine lockstep_bind_eq (upsertChannel_alike known _) fun _ => ?_
      refine lockstep_bind_eq ?_ fun _ => lockstep_pure rfl
      exact lockstep_bind_eq (alike_getChannel known _) fun channel => treatFrameOn_alike calls known channel f
    · exact lockstep_bind_eq (alike_reply known _) fun _ => refused
    · cases s with
      | waitingStartOk =>
          refine lockstep_bind_eq (checkStartOk_alike calls f) fun ok => ?_
          refine lockstep_ite refused ?_
          exact lockstep_bind_eq (alike_reply known _) fun _ => moved _ _
      | waitingTuneOk => exact lockstep_ite refused (moved _ _)
      | waitingOpen =>
          refine lockstep_ite refused (lockstep_ite refused ?_)
          exact lockstep_bind_eq (alike_reply known _) fun _ => moved _ _
      | _ => exact lockstep_pure rfl

end

end

/-! ## Pushes -/

/-- The push with another tag. -/
def Push.tagged (p : Push) (d : Draw) : Push := { p with deliveryTag := d.val }

/-- The same has been written so far, up to what the bytes are. -/
structure DumpState.Similar (st st' : DumpState) : Prop where
  bitcount : st.bitcount = st'.bitcount
  bits : st.bits.length = st'.bits.length
  out : st.out.length = st'.out.length

section
variable {st st' : DumpState}

theorem DumpState.Similar.flush (h : st.Similar st') : st.flush.Similar st'.flush :=
  ⟨rfl, rfl, by simp only [DumpState.flush, List.length_append, h.bits, h.out]⟩

theorem DumpState.Similar.write (h : st.Similar st') {b b' : Bytes} (same : b.length = b'.length) :
    (st.write b).Similar (st'.write b') :=
  ⟨h.bitcount, h.bits, by simp only [DumpState.write, List.length_append, h.out, same]⟩

/-- A value is written, or not, whatever has been written before it. -/
theorem dumpOne_similar (h : st.Similar st') (p : Char) (v : Val) :
    Together DumpState.Similar (dumpOne st p v) (dumpOne st' p v) := by
  have field : ∀ x : Except PyError Bytes, Together DumpState.Similar
      (do return st.flush.write (← x)) (do return st'.flush.write (← x)) := fun x =>
    together_bind (together_refl x) fun b b' same => .ok (h.flush.write (congrArg _ same))
  unfold dumpOne
  split
  · refine .ok ⟨?_, ?_, h.out⟩
    · simp only [h.bitcount]
    · simp only [List.length_append, List.length_dropLast, List.length_singleton, h.bitcount]
      split
      · simp only [List.length_append, h.bits]
      · rw [h.bits]
  · exact together_bind (together_refl _) fun i j same => same ▸ field _
  · exact together_bind (together_refl _) fun i j same => same ▸ field _
  · exact together_bind (together_refl _) fun i j same => same ▸ field _
  · exact together_bind (together_refl _) fun i j same => same ▸ field _
  · exact field _
  · exact field _
  · exact field _
  · exact field _
  · exact field _
  · split
    · exact together_bind (together_refl _) fun b b' same => .ok (h.write (congrArg _ same))
    · exact .error _
  · exact .ok h

theorem dumpAll_similar (h : st.Similar st') (format : List Char) (values : List Val) :
    Together (fun b b' : Bytes => b.length = b'.length) (dumpAll format values st)
      (dumpAll format values st') := by
  induction values generalizing format st st' with
  | nil => cases format <;> exact .ok h.flush.out
  | cons v values ih =>
      cases format with
      | nil => exact .error _
      | cons p format =>
          exact together_bind (dumpOne_similar h p v) fun st st' similar => ih similar format

end

/-- The tag of a basic.deliver decides neither whether its arguments can be written nor how many
bytes they take. -/
theorem deliver_dumps (tag name : Str) (d d' : Draw) :
    Together (fun b b' : Bytes => b.length = b'.length)
      (dumps "sLbss".toList [.str tag, .int d.val, .bool false, .str name, .str []])
      (dumps "sLbss".toList [.str tag, .int d'.val, .bool false, .str name, .str []]) := by
  have drawn : ∀ (d : Draw) (st : DumpState),
      dumpOne st 'L' (.int d.val) = .ok (st.flush.write (beBytes 8 d.val)) := by
    intro d st
    have bound := d.2.2
    exact dumpOne_longlong (by omega) st
  refine together_bind (dumpOne_similar ⟨rfl, rfl, rfl⟩ _ _) fun st st' similar => ?_
  show Together _ (dumpOne st 'L' _ >>= _) (dumpOne st' 'L' _ >>= _)
  rw [drawn, drawn]
  exact dumpAll_similar (similar.flush.write (by rw [length_beBytes, length_beBytes])) _ _

theorem sendMethod_lockstep (n classId methodId : Nat) {b b' : Bytes}
    (same : b.length = b'.length) : Lockstep SameClosing Eq (sendMethod n classId methodId b)
      (sendMethod n classId methodId b') := by
  have wrote : ∀ b b' : Bytes, Lockstep SameClosing Eq (write b) (write b') :=
    fun _ _ => lockstep_update fun _ _ h => h
  refine lockstep_bind_eq (lockstep_attempt _) fun _ => ?_
  refine lockstep_bind_eq (wrote _ _) fun _ => ?_
  rw [same]
  refine lockstep_bind_eq (lockstep_attempt _) fun _ => ?_
  refine lockstep_bind_eq (wrote _ _) fun _ => lockstep_bind_eq (wrote _ _) fun _ => ?_
  exact lockstep_bind_eq (wrote _ _) fun _ => wrote _ _

theorem Appends.lockstep {α : Type} {x : Send α} (h : Appends x) : Lockstep SameClosing Eq x x := by
  obtain ⟨result, bytes, ran⟩ := h
  intro t t' closing
  rw [ran, ran]
  exact lockstep_attempt result _ _ closing

theorem Push.send_lockstep (p : Push) (d d' : Draw) :
    Lockstep SameClosing Eq (p.tagged d).send (p.tagged d').send := by
  have content : (p.tagged d).content = (p.tagged d').content := rfl
  rw [Push.send_eq, Push.send_eq, content]
  refine lockstep_bind_eq ?_ fun _ => Appends.lockstep ?_
  · refine lockstep_bind (lockstep_together (deliver_dumps _ _ d d')) fun b b' same => ?_
    exact sendMethod_lockstep _ _ _ same
  · exact appends_content _

/-! ## Requests -/

theorem State.sameConsumers_appended {x : EStateM PyError State Unit}
    (appends : ∀ s, x s = .error .keyError s ∨ ∃ s', x s = .ok () s' ∧ State.SameNames s s' ∧
      ∀ q, s'.consumersOf q = s.consumersOf q) : Within SameConsumers x := by
  intro s
  rcases appends s with failed | ⟨s', stored, _, same⟩
  · rw [after_error failed]
    exact sameConsumers_progress.refl s
  · rw [after_ok stored]
    exact same

/-- Every consumer belongs to one of the connections. -/
def State.ServesOnly (knows : ConnId → Prop) (s : State) : Prop :=
  ∀ q, ∀ p ∈ s.consumersOf q, knows p.2.protocol

theorem State.ServesOnly.fewer {knows : ConnId → Prop} {s s' : State} (h : s.ServesOnly knows)
    (fewer : ∀ q, ∀ p ∈ s'.consumersOf q, p ∈ s.consumersOf q) : s'.ServesOnly knows :=
  fun q p member => h q p (fewer q p member)

section
variable {β : Type} {l : Likeness β} {env : Env}

theorem alike_randint : Lockstep (Alike l)
    (fun n n' => ∃ d d' : Draw, l.draw d d' ∧ n = d.val ∧ n' = d'.val) randint randint := by
  intro b b' h
  exact .ok ⟨_, _, h.draws 0, rfl, rfl⟩
    ⟨h.state, fun n => h.draws (n + 1), h.parser, h.channels, h.closing, h.trace⟩

theorem alike_onState {α : Type} {x y : EStateM PyError State α}
    (inner : Lockstep l.state Eq x y) : Lockstep (Alike l) Eq (onState x) (onState y) :=
  lockstep_zoom inner (fun _ _ h => h.state) fun _ _ _ _ h states =>
    ⟨states, h.draws, h.parser, h.channels, h.closing, h.trace⟩

theorem alike_updateState {f f' : State → State}
    (h : ∀ s s', l.state s s' → l.state (f s) (f' s')) :
    Lockstep (Alike l) Eq (updateState f) (updateState f') :=
  lockstep_update fun _ _ alike => ⟨h _ _ alike.state, alike.draws, alike.parser, alike.channels,
    alike.closing, alike.trace⟩

/-- The states are the same and serve no connection that is not looked at. -/
def Likeness.Plain (l : Likeness β) : Prop :=
  ∀ s s', l.state s s' ↔ s = s' ∧ s.ServesOnly l.knows

/-- All connections are looked at. -/
theorem likeness_plain (same : l.state = Eq) (all : ∀ c, l.knows c) : l.Plain := by
  intro s s'
  rw [same]
  exact ⟨fun h => ⟨h, fun _ p _ => all p.2.protocol⟩, And.left⟩

theorem Likeness.Plain.fewer (plain : l.Plain) {f : State → State}
    (fewer : ∀ s q, ∀ p ∈ (f s).consumersOf q, p ∈ s.consumersOf q) :
    Lockstep (Alike l) Eq (updateState f) (updateState f) := by
  refine alike_updateState fun s s' states => ?_
  obtain ⟨rfl, serves⟩ := (plain s s').mp states
  exact (plain _ _).mpr ⟨rfl, serves.fewer (fewer s)⟩

theorem Likeness.Plain.kept (plain : l.Plain) {α : Type} {x : EStateM PyError State α}
    (kept : Within State.SameConsumers x) : Lockstep (Alike l) Eq (onState x) (onState x) := by
  refine alike_onState fun s s' states => ?_
  obtain ⟨rfl, serves⟩ := (plain s s').mp states
  have same := kept s
  have ended : ∀ t, State.SameConsumers s t → l.state t t := fun t same =>
    (plain t t).mpr ⟨rfl, serves.fewer fun q p member => same q ▸ member⟩
  unfold after at same
  generalize x s = r at same
  cases r with
  | ok a t => exact .ok rfl (ended t same)
  | error e t => exact .error (ended t same)

variable (tags : ∀ (p : Push) (d d' : Draw), l.draw d d' →
  l.sees (.push (p.tagged d)) = l.sees (.push (p.tagged d')))
include tags

theorem pushMessage_alike {p : Push} (known : l.knows p.protocol) {d d' : Draw}
    (related : l.draw d d') :
    Lockstep (Alike l) Eq (pushMessage (p.tagged d)) (pushMessage (p.tagged d')) := by
  refine lockstep_bind_eq (lockstep_update fun b b' h => ?_) fun _ => ?_
  · exact h.logged (tags p d d' related)
  · exact alike_onTransport known (p.send_lockstep d d')

/-- The consumers are passed over alike, up to the same one. -/
theorem offer_alike (queueName : Str) (pub : Publication) (exchangeName : Str)
    {consumers : List (Str × Consumer)} (known : ∀ p ∈ consumers, l.knows p.2.protocol)
    {tag tag' : Option Nat} (both : tag.isSome = tag'.isSome) (gone : List Str) :
    Lockstep (Alike l) (fun r r' => r.1.isSome = r'.1.isSome ∧ r.2 = r'.2)
      (offer queueName pub exchangeName consumers tag gone)
      (offer queueName pub exchangeName consumers tag' gone) := by
  induction consumers generalizing tag tag' gone with
  | nil => exact lockstep_pure ⟨both, rfl⟩
  | cons p rest ih =>
      obtain ⟨consumerTag, consumer⟩ := p
      obtain ⟨here, later⟩ := List.forall_mem_cons.mp known
      unfold offer
      refine lockstep_bind alike_randint ?_
      rintro _ _ ⟨d, d', related, rfl, rfl⟩
      refine lockstep_bind_eq (lockstep_read fun b b' h => h.closing _ here) fun closing => ?_
      have tagged : (some d.val).isSome = (some d'.val).isSome := rfl
      refine lockstep_ite (ih later tagged _) ?_
      refine lockstep_bind_eq (lockstep_attempt _) fun message => ?_
      refine lockstep_bind_eq ?_ fun _ => lockstep_pure ⟨rfl, rfl⟩
      have toKnown : l.knows
          (pushTo queueName pub exchangeName (consumerTag, consumer) 0 message).protocol := here
      exact pushMessage_alike tags toKnown related

variable (plain : l.Plain)
include plain

theorem serveQueue_alike (queueName : Str) (pub : Publication) (exchangeName : Str) :
    Lockstep (Alike l) (fun t t' => t.isSome = t'.isSome)
      (serveQueue queueName pub exchangeName) (serveQueue queueName pub exchangeName) := by
  have table : Lockstep (Alike l)
      (fun t t' => t = t' ∧ ∀ p ∈ t.entries, l.knows p.2.protocol)
      (getConsumers queueName) (getConsumers queueName) := by
    intro b b' h
    obtain ⟨same, serves⟩ := (plain _ _).mp h.state
    unfold getConsumers
    rw [← same]
    cases found : b.state.queues.get? queueName with
    | some q =>
        refine .ok ⟨rfl, fun p member => serves queueName p ?_⟩ h
        rwa [State.consumersOf_eq found]
    | none => exact .error h
  refine lockstep_bind table ?_
  rintro consumers _ ⟨rfl, known⟩
  refine lockstep_bind (offer_alike tags _ _ _ known rfl _) ?_
  rintro ⟨t, gone⟩ ⟨t', _⟩ ⟨both, rfl⟩
  refine lockstep_bind_eq ?_ fun _ => lockstep_pure both
  exact plain.fewer (f := State.deleteConsumers queueName gone)
    fun s q p member => (mem_deleteConsumers.mp member).1

theorem publishMessage_alike (exchangeName : Str) (pub : Publication) :
    Lockstep (Alike l) (fun t t' => t.isSome = t'.isSome)
      (publishMessage env exchangeName pub) (publishMessage env exchangeName pub) := by
  have same : ∀ {b b' : Broker}, Alike l b b' → b.state = b'.state :=
    fun h => ((plain _ _).mp h.state).1
  refine lockstep_bind_eq (lockstep_read fun b b' h => by rw [same h]) fun declared => ?_
  refine lockstep_ite (lockstep_pure rfl) ?_
  refine lockstep_bind_eq (plain.kept (State.sameConsumers_appended (appendToExchange_cases _ _))) fun _ => ?_
  refine lockstep_bind_eq (lockstep_read fun b b' h => by rw [same h]) fun queues => ?_
  cases queues with
  | nil => exact lockstep_pure rfl
  | cons queueName rest => exact serveQueue_alike tags plain _ _ _

theorem publishMessageInQueue_alike (queueName : Str) (pub : Publication) :
    Lockstep (Alike l) (fun t t' => t.isSome = t'.isSome)
      (publishMessageInQueue queueName pub) (publishMessageInQueue queueName pub) := by
  have same : ∀ {b b' : Broker}, Alike l b b' → b.state = b'.state :=
    fun h => ((plain _ _).mp h.state).1
  refine lockstep_bind_eq (lockstep_read fun b b' h => by rw [same h]) fun declared => ?_
  refine lockstep_ite (lockstep_pure rfl) ?_
  refine lockstep_bind_eq (plain.kept (State.sameConsumers_appended (appendToQueue_cases _ _))) fun _ => ?_
  exact serveQueue_alike tags plain _ _ _

/-- Requests act alike on brokers with the same state. -/
theorem http_alike (op : HttpOp) : Lockstep (Alike l) Eq (op.run env) (op.run env) := by
  cases op with
  | reset => exact plain.fewer fun s q p member => by cases member
  | declareExchange name type =>
      exact plain.fewer (f := fun s => (s.declareExchange name type).2)
        fun s q p member => State.sameConsumers_declareExchange s name type q ▸ member
  | declareQueue name =>
      exact plain.fewer (f := fun s => (s.declareQueue name).2)
        fun s q p member => State.sameConsumers_declareQueue s name q ▸ member
  | deleteMessagesOfQueue name =>
      exact plain.fewer fun s q p member =>
        State.sameConsumers_deleteMessagesOfQueue s name q ▸ member
  | deleteMessagesOfExchange name =>
      exact plain.fewer fun s q p member =>
        State.sameConsumers_deleteMessagesOfExchange s name q ▸ member
  | publishMessage name pub =>
      exact lockstep_bind (publishMessage_alike tags plain name pub) fun _ _ _ => lockstep_pure rfl
  | publishMessageInQueue name pub =>
      exact lockstep_bind (publishMessageInQueue_alike tags plain name pub)
        fun _ _ _ => lockstep_pure rfl

end

/-! ## Runs -/

/-- Frames of the known connections and requests keep brokers alike. -/
structure Congruent {β : Type} (l : Likeness β) (env env' : Env) : Prop where
  calls : ∀ c, l.knows c → ∀ op : Call, op.Own c →
    Lockstep l.state Eq (op.run env) (op.run env')
  requests : ∀ (op : HttpOp) (b b' : Broker), Alike l b b' →
    Alike l (after (op.run env) b) (after (op.run env') b')

section
variable {β : Type} {l : Likeness β} {env env' : Env} {c : ConnId} {b b' : Broker}

theorem Likeness.Plain.call (plain : l.Plain) (known : l.knows c) {op : Call} (own : op.Own c) :
    Lockstep l.state Eq (op.run env) (op.run env) := by
  intro s s' states
  obtain ⟨rfl, serves⟩ := (plain s s').mp states
  have kept : (after (op.run env) s).ServesOnly l.knows := by
    intro q p member
    rcases State.registered_of_call ⟨q, member⟩ with ⟨q', old⟩ | ⟨_, _, rfl, _⟩
    · exact serves q' p old
    · rw [own]
      exact known
  have states' := (plain _ _).mpr ⟨rfl, kept⟩
  unfold after at states'
  generalize op.run env s = r at states'
  cases r with
  | ok a t => exact .ok rfl states'
  | error e t => exact .error states'

theorem congruent_same (env : Env) (plain : l.Plain) (tags : ∀ (p : Push) (d d' : Draw),
    l.draw d d' → l.sees (.push (p.tagged d)) = l.sees (.push (p.tagged d'))) :
    Congruent l env env where
  calls := fun _ known _ own => plain.call known own
  requests := fun op _ _ h => (http_alike tags plain op).after h

theorem greet_alike (known : l.knows c) : Lockstep (Alike l) Eq (greet c) (greet c) :=
  lockstep_bind_eq (alike_reply known _) fun _ => alike_setParserState _

theorem turn_alike (congruent : Congruent l env env') (h : Alike l b b') {t : Turn}
    (known : ∀ c, t.conn = some c → l.knows c) :
    Alike l (Turn.step env b t) (Turn.step env' b' t) := by
  cases t with
  | frame c f => exact (dispatch_alike (congruent.calls c (known c rfl)) (known c rfl) f).after h
  | lost c => exact alike_close.after h
  | http op => exact congruent.requests op b b' h
  | start c =>
      unfold Turn.step
      dsimp only
      rw [h.parser c (known c rfl)]
      split
      · exact (greet_alike (known c rfl)).after h
      · exact h

/-- Servers with alike brokers and the same buffers. -/
structure AlikeServers {β : Type} (l : Likeness β) (s s' : Server) : Prop where
  broker : Alike l s.broker s'.broker
  buffers : ∀ c, l.knows c → s.buffers c = s'.buffers c

theorem AlikeServers.received {s s' : Server} (h : AlikeServers l s s') {buf : Bytes}
    (broker : Alike l b b') : AlikeServers l
      { broker := b, buffers := Function.update s.buffers c buf }
      { broker := b', buffers := Function.update s'.buffers c buf } where
  broker := broker
  buffers := by
    intro c' known
    by_cases same : c' = c
    · subst same
      simp
    · simp [Function.update_of_ne same, h.buffers c' known]

/-- The connection that the action brings bytes to. -/
def Action.conn : Action → Option ConnId
  | dataReceived c _ => some c
  | connectionLost _ => none
  | http _ => none

/-- A step with the same calls, that keeps the brokers alike if it is a request. -/
theorem step_alike_of (calls : ∀ c, l.knows c → ∀ op : Call, op.Own c →
      Lockstep l.state Eq (op.run env) (op.run env')) {s s' : Server} (h : AlikeServers l s s')
    {a : Action} (requests : ∀ op, a = .http op →
      Alike l (after (op.run env) s.broker) (after (op.run env') s'.broker))
    (known : ∀ c, a.conn = some c → l.knows c) :
    AlikeServers l (Server.step env s a) (Server.step env' s' a) := by
  cases a with
  | connectionLost c => exact ⟨alike_close.after h.broker, h.buffers⟩
  | http op => exact ⟨requests op rfl, h.buffers⟩
  | dataReceived c data =>
      have known := known c rfl
      have closing := h.broker.closing c known
      by_cases closed : s.broker.isClosing c = true
      · have stuck : Server.step env s (.dataReceived c data) = s := if_pos closed
        have stuck' : Server.step env' s' (.dataReceived c data) = s' :=
          if_pos (closing.symm.trans closed)
        rw [stuck, stuck']
        exact h
      · have live : s.broker.isClosing c = false := by simpa using closed
        have live' : s'.broker.isClosing c = false := closing.symm.trans live
        have parser := h.broker.parser c known
        have buffer := h.buffers c known
        by_cases state : (s.broker.trackers c).parserState = .waitingProtocolHeader
        · have closed : Alike l (after (close c) s.broker) (after (close c) s'.broker) :=
            alike_close.after h.broker
          have greeted : Alike l (after (greet c) s.broker) (after (greet c) s'.broker) :=
            (greet_alike known).after h.broker
          rw [step_header live state, step_header live' (parser.symm.trans state), buffer]
          generalize after (close c) s.broker = b at closed
          generalize after (close c) s'.broker = b' at closed
          generalize after (greet c) s.broker = b₁ at greeted
          generalize after (greet c) s'.broker = b₁' at greeted
          split
          · exact h.received h.broker
          · split
            · exact h.received closed
            · exact h.received greeted
        · have looped : Alongside (fun p p' => p.1 = p'.1 ∧ Alike l p.2 p'.2) Eq
              (Framing.feed frameReader (dispatch env c) data (s.buffers c, s.broker))
              (Framing.feed frameReader (dispatch env' c) data (s.buffers c, s'.broker)) :=
            Framing.drain_lockstep (fun f => dispatch_alike (calls c known) known f) _ _
              h.broker
          have open_ : ¬ s'.broker.isClosing c = true := by simp [live']
          have ended := looped.states
          rw [← after_congr (dataReceived_frames state),
            ← after_congr (dataReceived_frames fun same => state (parser.trans same))] at ended
          simp only [Server.step, if_neg closed, if_neg open_, ← buffer]
          rw [ended.1]
          exact h.received ended.2

theorem step_alike (congruent : Congruent l env env') {s s' : Server}
    (h : AlikeServers l s s') {a : Action} (known : ∀ c, a.conn = some c → l.knows c) :
    AlikeServers l (Server.step env s a) (Server.step env' s' a) :=
  step_alike_of congruent.calls h (fun op _ => congruent.requests op _ _ h.broker) known

end

/-! ## Heartbeats -/

/-- Everything but heartbeats and the answers to them. -/
def Event.withoutHeartbeats : Event → Option Event
  | .frame _ _ (.heartBeat _) => none
  | .reply _ .heartbeat => none
  | e => some e

def Turn.isHeartbeat : Turn → Bool
  | .frame _ (.heartBeat _) => true
  | _ => false

section
variable {β : Type} {l : Likeness β} {c : ConnId} {b b' : Broker}

theorem Alike.unseen (h : Alike l b b') {e : Event} (forgotten : l.sees e = none) :
    Alike l { b with trace := b.trace ++ [e] } b' where
  state := h.state
  draws := h.draws
  parser := h.parser
  channels := h.channels
  closing := h.closing
  trace := by
    show (b.trace ++ [e]).filterMap l.sees = _
    rw [List.filterMap_append, h.trace, List.filterMap_cons_none forgotten, List.filterMap_nil,
      List.append_nil]

/-- A reply that is forgotten leaves the brokers alike. -/
theorem Alike.replied (h : Alike l b b') {r : Reply} (forgotten : l.sees (.reply c r) = none) :
    Alike l (after (reply c r) b) b' := by
  have written : ∀ t : Transport, t.closing = (b.trackers c).transport.closing →
      Alike l (b.setTracker c { b.trackers c with transport := t }) b' := by
    intro t closing
    have moved : Alike l (b.setTracker c { b.trackers c with transport := t })
        (b'.setTracker c (b'.trackers c)) :=
      h.tracked (h.parser c) (h.channels c) fun known => closing.trans (h.closing c known)
    have same : b'.setTracker c (b'.trackers c) = b' := by
      unfold Broker.setTracker
      rw [Function.update_eq_self]
    rwa [same] at moved
  obtain ⟨_, ⟨e, failed⟩ | ⟨raw, _, sent⟩⟩ := r.send_whole
  · rw [after_error (reply_error (failed _))]
    exact written _ rfl
  · rw [after_ok (reply_ok (sent _))]
    exact (written ((b.trackers c).transport.put raw.bytes) rfl).unseen forgotten

end

/-- Two brokers with the same state, without their heartbeats. -/
def pulseless : Likeness Event where
  state := Eq
  draw := Eq
  sees := Event.withoutHeartbeats

/-- A run goes on as if no heartbeat had been sent, apart from the answers to the heartbeats. -/
theorem heartbeats_do_not_matter (env : Env) (b : Broker) (turns : List Turn) :
    Alike pulseless (Runs.run (Turn.step env) b turns)
      (Runs.run (Turn.step env) b (turns.filter (!·.isHeartbeat))) := by
  have start : Alike pulseless b b :=
    ⟨rfl, fun _ => rfl, fun _ _ => rfl, fun _ _ => rfl, fun _ _ => rfl, rfl⟩
  have congruent : Congruent pulseless env env :=
    congruent_same env (likeness_plain rfl fun _ => trivial)
      fun p d d' (same : d = d') => by rw [same]
  have one : ∀ b b' t, (!Turn.isHeartbeat t) = true → Alike pulseless b b' →
      Alike pulseless (Turn.step env b t) (Turn.step env b' t) :=
    fun b b' t _ h => turn_alike congruent h fun _ _ => trivial
  refine Runs.related_filter one ?_ start turns
  intro b b' t beat h
  cases t with
  | frame c f =>
      cases f with
      | heartBeat size =>
          have answered : dispatch env c (.heartBeat size) b =
              (do reply c .heartbeat; pure true) (b.recorded c (.heartBeat size)) :=
            dispatch_heartBeat size
          have step : Turn.step env b (.frame c (.heartBeat size)) =
              after (reply c .heartbeat) (b.recorded c (.heartBeat size)) :=
            (after_congr answered).trans (after_bind_pure _ _ _)
          rw [step]
          have recorded : Alike pulseless (b.recorded c (.heartBeat size)) b' := h.unseen rfl
          exact recorded.replied rfl
      | _ => cases beat
  | _ => cases beat

/-! ## Drawn tags -/

/-- A push without its tag. -/
def Event.untagged : Event → Option Event
  | .push p => some (.push { p with deliveryTag := 0 })
  | e => some e

/-- Two brokers with the same state, whatever tags they draw. -/
def tagless : Likeness Event where
  state := Eq
  draw := fun _ _ => True
  sees := Event.untagged

/-- What the random numbers are matters to the tags of the pushes and to nothing else. -/
theorem draws_do_not_matter (env : Env) (draws draws' : Nat → Draw) (actions : List Action) :
    AlikeServers tagless (Runs.run (Server.step env) (Server.init env draws) actions)
      (Runs.run (Server.step env) (Server.init env draws') actions) := by
  have congruent : Congruent tagless env env :=
    congruent_same env (likeness_plain rfl fun _ => trivial) fun p d d' _ => rfl
  have start : AlikeServers tagless (Server.init env draws) (Server.init env draws') :=
    ⟨⟨rfl, fun _ => trivial, fun _ _ => rfl, fun _ _ => rfl, fun _ _ => rfl, rfl⟩, fun _ _ => rfl⟩
  have one : ∀ s s' a, AlikeServers tagless s s' →
      AlikeServers tagless (Server.step env s a) (Server.step env s' a) :=
    fun s s' a h => step_alike congruent h fun _ _ => trivial
  exact Runs.related one start actions

end MockAmqp
