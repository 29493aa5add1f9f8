import MockAmqp.Replies
import MockAmqp.Routing
import MockAmqp.Text

/-!
# Inspection of stored messages

The listings of queues and exchanges, and the messages that they can show.
-/

namespace MockAmqp
open Exec

/-! ## base64 -/

/-- The value of a character in the alphabet of base64. -/
def base64Digit (c : CodePoint) : Option Nat :=
  if 0x41 ≤ c.val ∧ c.val ≤ 0x5A then some (c.val - 0x41)
  else if 0x61 ≤ c.val ∧ c.val ≤ 0x7A then some (c.val - 0x61 + 26)
  else if 0x30 ≤ c.val ∧ c.val ≤ 0x39 then some (c.val - 0x30 + 52)
  else if c.val = 0x2B then some 62
  else if c.val = 0x2F then some 63
  else none

/-- `base64.b64decode`, of a text that an encoder has written. -/
def b64decode : Str → Option Bytes
  | [] => some []
  | c0 :: c1 :: c2 :: c3 :: rest => do
      let d0 ← base64Digit c0
      let d1 ← base64Digit c1
      let b0 := UInt8.ofNat (d0 * 4 + d1 / 16)
      -- the last group is filled up with equals signs
      if [c2, c3] = str "==" ∧ rest = [] then return [b0]
      let d2 ← base64Digit c2
      let b1 := UInt8.ofNat (d1 % 16 * 16 + d2 / 4)
      if [c3] = str "=" ∧ rest = [] then return [b0, b1]
      let d3 ← base64Digit c3
      let b2 := UInt8.ofNat (d2 % 4 * 64 + d3)
      return [b0, b1, b2] ++ (← b64decode rest)
  | _ => none

example : b64decode (str "/wD+gA==") = some [0xFF, 0x00, 0xFE, 0x80] := by decide

/-! ## Listings -/

/-- The entry carries the headers of the message, and a text that its body is recovered from. -/
def Shows (m : StoredMessage) (entry : Val) : Prop :=
  entry.subscript (str "headers") = .ok m.headers ∧
    ∃ text, entry.subscript (str "body") = .ok (.str text) ∧
      match m.body with
      | .str s => text = s
      | .bytes b => decodeUtf8 false b = .ok text ∨ ¬ IsUtf8 b ∧
          entry.subscript (str "base64") = .ok (.bool true) ∧ b64decode text = some b
      | _ => False

/-- The messages are listed, all of them and in their order. -/
def Inspects (messages : List StoredMessage) (listed : Except PyError (Option (List Val))) : Prop :=
  ∃ entries, listed = .ok (some entries) ∧ List.Forall₂ Shows messages entries

/-- The body is stored as the bytes of a text. -/
def StoredMessage.IsText (m : StoredMessage) : Prop := ∃ b, m.body = .bytes b ∧ IsUtf8 b

namespace State

theorem encodeForListing_shows {m : StoredMessage} (text : m.IsText) :
    ∃ entry, encodeForListing m = .ok entry ∧ Shows m entry := by
  obtain ⟨b, body, s, decoded⟩ := text
  refine ⟨.dict [(str "headers", m.headers), (str "body", .str s)], ?_, rfl, s, rfl, ?_⟩
  · rw [encodeForListing, body]
    dsimp only
    rw [decoded]
  · rw [body]
    exact .inl decoded

theorem isText_of_listed {m : StoredMessage} {entry : Val}
    (listed : encodeForListing m = .ok entry) : m.IsText := by
  unfold encodeForListing at listed
  split at listed
  · next b body =>
      split at listed
      · next s decoded => exact ⟨b, body, s, decoded⟩
      · cases listed
  · cases listed

/-- A listing is faithful when it can be made at all. -/
theorem listing_iff (messages : List StoredMessage) :
    Inspects messages ((messages.mapM encodeForListing).map some) ↔ ∀ m ∈ messages, m.IsText := by
  have shape : Inspects messages ((messages.mapM encodeForListing).map some) ↔
      ∃ entries, messages.mapM encodeForListing = .ok entries ∧
        List.Forall₂ Shows messages entries := by
    unfold Inspects
    cases messages.mapM encodeForListing with
    | error e => simp [Except.map]
    | ok entries => simp [Except.map]
  rw [shape]
  clear shape
  induction messages with
  | nil => exact iff_of_true ⟨[], rfl, .nil⟩ (by simp)
  | cons m messages ih =>
      rw [List.forall_mem_cons]
      constructor
      · rintro ⟨entries, listed, shown⟩
        rw [List.mapM_cons] at listed
        obtain ⟨entry, first, listed⟩ := except_bind_eq_ok.mp listed
        obtain ⟨rest, later, ended⟩ := except_bind_eq_ok.mp listed
        cases ended
        obtain ⟨_, shown⟩ := List.forall₂_cons.mp shown
        exact ⟨isText_of_listed first, ih.mp ⟨rest, later, shown⟩⟩
      · rintro ⟨text, texts⟩
        obtain ⟨entry, first, here⟩ := encodeForListing_shows text
        obtain ⟨rest, later, shown⟩ := ih.mpr texts
        refine ⟨entry :: rest, ?_, .cons here shown⟩
        rw [List.mapM_cons]
        exact except_bind_eq_ok.mpr ⟨entry, first, except_bind_eq_ok.mpr ⟨rest, later, rfl⟩⟩

theorem inspectsQueue_iff {s : State} {q : Str} {queue : Queue}
    (found : s.queues.get? q = some queue) :
    Inspects queue.messages (s.getMessagesOfQueue q) ↔ ∀ m ∈ queue.messages, m.IsText := by
  rw [← listing_iff, getMessagesOfQueue, found]

theorem inspectsExchange_iff {s : State} {e : Str} {exchange : Exchange}
    (found : s.exchanges.get? e = some exchange) :
    Inspects exchange.messages (s.getMessagesOfExchange e) ↔
      ∀ m ∈ exchange.messages, m.IsText := by
  rw [← listing_iff, getMessagesOfExchange, found]

/-- Every queue and every exchange can be inspected. -/
def Inspected (s : State) : Prop :=
  (∀ q queue, s.queues.get? q = some queue →
      Inspects queue.messages (s.getMessagesOfQueue q)) ∧
    ∀ e exchange, s.exchanges.get? e = some exchange →
      Inspects exchange.messages (s.getMessagesOfExchange e)

/-- Every message is stored as a text in bytes. -/
def HoldsText (s : State) : Prop :=
  (∀ q, ∀ m ∈ s.messagesIn q, m.IsText) ∧ ∀ e, ∀ m ∈ s.messagesOn e, m.IsText

theorem inspected_iff (s : State) : s.Inspected ↔ s.HoldsText := by
  constructor
  · rintro ⟨queues, exchanges⟩
    constructor
    · intro q m member
      cases found : s.queues.get? q with
      | none => simp [messagesIn, found] at member
      | some queue =>
          rw [messagesIn_eq found] at member
          exact (inspectsQueue_iff found).mp (queues q queue found) m member
    · intro e m member
      cases found : s.exchanges.get? e with
      | none => simp [messagesOn, found] at member
      | some exchange =>
          rw [messagesOn_eq found] at member
          exact (inspectsExchange_iff found).mp (exchanges e exchange found) m member
  · rintro ⟨queues, exchanges⟩
    constructor
    · intro q queue found
      rw [inspectsQueue_iff found, ← messagesIn_eq found]
      exact queues q
    · intro e exchange found
      rw [inspectsExchange_iff found, ← messagesOn_eq found]
      exact exchanges e

end State

/-! ## Runs that store text -/

namespace Operation

/-- The message that the operation stores if its destination is declared. -/
def message : Operation → Option StoredMessage
  | call (.storeMessage _ headers data) => some { headers, body := data }
  | storeMessageInQueue _ headers data => some { headers, body := data }
  | http (.publishMessage _ pub) | http (.publishMessageInQueue _ pub) => some pub.stored
  | _ => none

def StoresText (op : Operation) : Prop := ∀ m, op.message = some m → m.IsText

theorem stored_in_queue {op : Operation} {names : Names} {q : Str} {m : StoredMessage}
    (member : m ∈ op.forQueue names q) : op.message = some m := by
  unfold forQueue at member
  split at member
  · split at member
    · rw [List.mem_singleton.mp member]
      rfl
    · cases member
  · split at member
    · rw [List.mem_singleton.mp member]
      rfl
    · cases member
  · split at member
    · rw [List.mem_singleton.mp member]
      rfl
    · cases member
  · cases member

theorem stored_in_exchange {op : Operation} {names : Names} {e : Str} {m : StoredMessage}
    (member : m ∈ op.forExchange names e) : op.message = some m := by
  unfold forExchange at member
  split at member
  · split at member
    · rw [List.mem_singleton.mp member]
      rfl
    · cases member
  · split at member
    · rw [List.mem_singleton.mp member]
      rfl
    · cases member
  · cases member

theorem step_holdsText {env : Env} {b : Broker} {op : Operation} (integral : b.state.Integral)
    (holds : b.state.HoldsText) (text : op.StoresText) : (op.step env b).state.HoldsText := by
  have effect := op.step_effect env b integral
  have old : ∀ {c : Prop} [Decidable c] {l : List StoredMessage} {m}, m ∈ (if c then [] else l) →
      m ∈ l := by
    intro c _ l m member
    split at member
    · cases member
    · exact member
  constructor
  · intro q m member
    rw [effect.messagesIn] at member
    rcases List.mem_append.mp member with before | added
    · exact holds.1 q m (old before)
    · exact text m (stored_in_queue added)
  · intro e m member
    rw [effect.messagesOn] at member
    rcases List.mem_append.mp member with before | added
    · exact holds.2 e m (old before)
    · exact text m (stored_in_exchange added)

end Operation

/-- The operation on the shared state that the turn comes to. -/
def Turn.operation (b : Broker) : Turn → Option Operation
  | frame c f => (b.asks c f).map .call
  | http op => some (.http op)
  | _ => none

theorem turn_state (env : Env) (b : Broker) (t : Turn) : (Turn.step env b t).state =
    match t.operation b with
    | some op => (op.step env b).state
    | none => b.state := by
  cases t with
  | frame c f =>
      rw [Turn.step, dispatch_state, Turn.operation]
      cases b.asks c f with
      | none => rfl
      | some op => exact (congrArg Broker.state (after_onState (op.run env) b)).symm
  | start c => exact Turn.start_state env b c
  | lost c => rfl
  | http op => rfl

/-- What the turn stores, it stores as a text in bytes. -/
def StoresText (b : Broker) (t : Turn) : Prop := ∀ op, t.operation b = some op → op.StoresText

theorem turn_holdsText {env : Env} {b : Broker} {t : Turn}
    (h : b.state.Integral ∧ b.state.HoldsText) (text : StoresText b t) :
    (Turn.step env b t).state.Integral ∧ (Turn.step env b t).state.HoldsText := by
  refine ⟨integral_turn env b t h.1, ?_⟩
  rw [turn_state]
  cases asked : t.operation b with
  | none => exact h.2
  | some op => exact Operation.step_holdsText h.1 h.2 (text op asked)

theorem init_holdsText (env : Env) : (State.init env).HoldsText := by
  have accounts := accounts_init env
  constructor
  · intro q m member
    rw [accounts.messagesIn] at member
    cases member
  · intro e m member
    rw [accounts.messagesOn] at member
    cases member

/-- In every state that the server reaches, a queue or an exchange is inspected faithfully exactly
if all its messages are stored as texts in bytes, and the inspection changes nothing. So while every
step of a run stores only such messages, everything can be inspected. -/
theorem inspection_faithful_iff (env : Env) (draws : Nat → Draw) (actions : List Action) :
    let b := (Runs.run (Server.step env) (Server.init env draws) actions).broker
    (∀ q queue, b.state.queues.get? q = some queue →
        (Inspects queue.messages (b.state.getMessagesOfQueue q) ↔
          ∀ m ∈ queue.messages, m.IsText)) ∧
      (∀ e exchange, b.state.exchanges.get? e = some exchange →
        (Inspects exchange.messages (b.state.getMessagesOfExchange e) ↔
          ∀ m ∈ exchange.messages, m.IsText)) ∧
      (∀ target protocol, (after (Http.onGet target) (protocol, b)).2 = b) ∧
      (Runs.Along (Turn.step env) StoresText (Broker.init env draws)
          (Server.turnsOf env (Server.init env draws) actions) → b.state.Inspected) := by
  intro b
  refine ⟨fun q queue => State.inspectsQueue_iff, fun e exchange => State.inspectsExchange_iff,
    fun target protocol => (Http.onGet_onProtocol target (protocol, b)).2, fun text => ?_⟩
  have run : b = _ := Server.run_refines (Server.init env draws) actions
  rw [State.inspected_iff]
  have kept := Runs.invariant_along (I := fun b => b.state.Integral ∧ b.state.HoldsText)
    (fun _ _ => turn_holdsText) ⟨State.integral_init env, init_holdsText env⟩ text
  rw [run]
  exact kept.2

/-- A queue, and a message that is posted to it. -/
def postedToQueue (messageData : Val) (isBinary : Bool) : List Action :=
  [.http (.declareQueue (str "q")),
    .http (.publishMessageInQueue (str "q") { headers := .dict [], messageData, isBinary })]

theorem posted_bytes_inspected :
    (session (postedToQueue (.bytes (ascii "hello")) true)).broker.state.Inspected := by
  refine (inspection_faithful_iff guestEnv _ _).2.2.2 ⟨?_, ?_, trivial⟩
  · rintro op asked m stored
    cases asked
    cases stored
  · rintro op asked m stored
    cases asked
    cases stored
    exact ⟨ascii "hello", rfl, isUtf8_ascii (low_of_all (by decide))⟩

/-- A text that was posted as JSON. -/
theorem posted_text_not_inspected : ¬ ∀ env b, Reachable env b → b.state.Inspected := by
  intro faithful
  obtain ⟨queues, _⟩ := faithful guestEnv _ (session_reachable (postedToQueue (.str (str "hello")) false))
  obtain ⟨entries, listed, _⟩ := queues (str "q") _ rfl
  have failed : (session (postedToQueue (.str (str "hello")) false)).broker.state.getMessagesOfQueue
      (str "q") = .error .attributeError := rfl
  rw [failed] at listed
  cases listed

end MockAmqp
