import MockAmqp.Http

/-!
# What the HTTP handlers do

A handler leaves the parser where it is apart from the acceptance of a response, gives at most
one answer, and acts on the broker at most once, as one of the operations of the server's runs.
-/

namespace MockAmqp
namespace Http
open Exec

/-- Nothing has been answered, or one response has been written to a request without one. -/
def Answers (h h' : HttpProtocol) : Prop :=
  (h'.httpParser.responded = h.httpParser.responded ∧ h'.responses = h.responses) ∨
    h.httpParser.responded = false ∧ h'.httpParser.responded = true ∧
      ∃ r, h'.responses = h.responses ++ [r]

theorem answers_progress : Progress Answers where
  refl := fun h => .inl ⟨rfl, rfl⟩
  trans := by
    intro h h' h'' first second
    rcases first with ⟨same, responses⟩ | ⟨before, answered, r, responses⟩
    · rcases second with ⟨same', responses'⟩ | ⟨before', answered', r, responses'⟩
      · exact .inl ⟨same'.trans same, responses'.trans responses⟩
      · exact .inr ⟨same ▸ before', answered', r, by rw [responses', responses]⟩
    · rcases second with ⟨same', responses'⟩ | ⟨before', _⟩
      · exact .inr ⟨before, same'.trans answered, r, by rw [responses', responses]⟩
      · rw [answered] at before'
        cases before'

/-- The parser has not moved on, and at most one response has been written, when there was none. -/
structure Handled (h h' : HttpProtocol) : Prop where
  pending : h'.httpParser.pending = h.httpParser.pending
  following : h'.httpParser.following = h.httpParser.following
  readAll : h'.httpParser.readAll = h.httpParser.readAll
  closing : h'.closing = h.closing
  futures : h.futures <+: h'.futures
  answer : Answers h h'

theorem handled_refl (h : HttpProtocol) : Handled h h :=
  ⟨rfl, rfl, rfl, rfl, List.prefix_rfl, .inl ⟨rfl, rfl⟩⟩

theorem Handled.trans {h h' h'' : HttpProtocol} (first : Handled h h') (second : Handled h' h'') :
    Handled h h'' :=
  ⟨second.pending.trans first.pending, second.following.trans first.following,
    second.readAll.trans first.readAll, second.closing.trans first.closing,
    first.futures.trans second.futures, answers_progress.trans first.answer second.answer⟩

/-- Once answered, a request stays answered. -/
theorem Handled.responded {h h' : HttpProtocol} (handled : Handled h h')
    (answered : h.httpParser.responded = true) : h'.httpParser.responded = true := by
  rcases handled.answer with ⟨same, _⟩ | ⟨_, now, _⟩
  · rw [same, answered]
  · exact now

/-- A step on the protocol alone. -/
def OnProtocol (s s' : HttpProtocol × Broker) : Prop := Handled s.1 s'.1 ∧ s'.2 = s.2

/-- An operation on the broker alone. -/
def Operates (env : Env) (s s' : HttpProtocol × Broker) : Prop :=
  s'.1 = s.1 ∧ ∃ op : HttpOp, s'.2 = after (op.run env) s.2

theorem onProtocol_progress : Progress OnProtocol where
  refl := fun s => ⟨handled_refl s.1, rfl⟩
  trans := fun h k => ⟨h.1.trans k.1, k.2.trans h.2⟩

section
variable {env : Env}

theorem send_accepted {s : HttpProtocol × Broker} (silent : s.1.httpParser.responded = false)
    (r : Response) : send r s = .ok () ({ s.1 with
      httpParser := { s.1.httpParser with responded := true }
      responses := s.1.responses ++ [r] }, s.2) := by
  unfold send
  rw [silent]
  rfl

theorem send_refused {s : HttpProtocol × Broker} (answered : s.1.httpParser.responded = true)
    (r : Response) : send r s = .error .localProtocolError s := if_pos answered

theorem send_onProtocol (r : Response) : Within OnProtocol (send r) := by
  intro s
  unfold after send
  by_cases answered : s.1.httpParser.responded = true
  · rw [if_pos answered]
    exact onProtocol_progress.refl s
  · rw [if_neg answered]
    exact ⟨⟨rfl, rfl, rfl, rfl, List.prefix_rfl, .inr ⟨by simpa using answered, rfl, r, rfl⟩⟩, rfl⟩

theorem sendHttpResponseOk_onProtocol (b : Body) : Within OnProtocol (sendHttpResponseOk b) := by
  cases b <;> exact send_onProtocol _

theorem ensureFuture_onProtocol (w : Wait) : Within OnProtocol (ensureFuture w) :=
  fun _ => ⟨⟨rfl, rfl, rfl, rfl, List.prefix_append _ _, .inl ⟨rfl, rfl⟩⟩, rfl⟩

/-- Reading an argument and then waiting. -/
theorem attempt_onProtocol {α β : Type} {x : Except PyError α} {k : α → OnHttp β}
    (hk : ∀ a, Within OnProtocol (k a)) : Within OnProtocol (attempt x >>= k) :=
  within_attempt_bind onProtocol_progress fun a _ => hk a

theorem sendMessages_onProtocol (messages : Option (List Val)) :
    Within OnProtocol (sendMessages messages) := by
  cases messages with
  | none => exact send_onProtocol _
  | some messages =>
      exact within_ite (sendHttpResponseOk_onProtocol _) (within_raise onProtocol_progress _)

theorem onGet_onProtocol (target : Bytes) : Within OnProtocol (onGet target) := by
  have read : ∀ {α β : Type} {g : HttpProtocol × Broker → α} {k : α → OnHttp β},
      (∀ a, Within OnProtocol (k a)) → Within OnProtocol (read g >>= k) := fun hk =>
    within_bind onProtocol_progress (within_read onProtocol_progress _) hk
  unfold onGet
  refine within_ite (read fun s => ?_) ?_
  · exact within_ite (send_onProtocol _) (within_raise onProtocol_progress _)
  refine within_ite (attempt_onProtocol fun _ => ensureFuture_onProtocol _) ?_
  refine within_ite (attempt_onProtocol fun _ => attempt_onProtocol fun _ =>
    ensureFuture_onProtocol _) ?_
  refine within_ite (attempt_onProtocol fun _ => attempt_onProtocol fun _ =>
    ensureFuture_onProtocol _) ?_
  refine within_ite (attempt_onProtocol fun _ => attempt_onProtocol fun _ =>
    ensureFuture_onProtocol _) ?_
  refine within_ite (attempt_onProtocol fun _ => attempt_onProtocol fun _ => read fun _ =>
    attempt_onProtocol sendMessages_onProtocol) ?_
  refine within_ite (attempt_onProtocol fun _ => attempt_onProtocol fun _ => read fun _ =>
    attempt_onProtocol sendMessages_onProtocol) ?_
  refine within_ite ?_ (send_onProtocol _)
  split
  · exact attempt_onProtocol fun _ => attempt_onProtocol fun _ => ensureFuture_onProtocol _
  · exact within_raise onProtocol_progress _

theorem operates {x : OnBroker Unit} (op : HttpOp) (same : ∀ b, after x b = after (op.run env) b) :
    Within (Operates env) (onGlobalState x) := by
  intro s
  rw [onGlobalState, after_zoom, same]
  exact ⟨rfl, op, rfl⟩

theorem publish_operates {x : OnBroker (Option Nat)} (op : HttpOp)
    (same : ∀ b, after x b = after (op.run env) b) : Within (Operates env) (onGlobalState x) := by
  intro s
  rw [onGlobalState, after_zoom, same]
  exact ⟨rfl, op, rfl⟩

/-- An operation on the broker and then a response. -/
theorem operate_then_send {α : Type} {x : OnHttp α} {k : α → OnHttp Unit}
    (hx : Within (Operates env) x) (hk : ∀ a, Within OnProtocol (k a)) :
    WithinOnce OnProtocol (Operates env) (x >>= k) :=
  withinOnce_then onProtocol_progress (withinOnce_step onProtocol_progress hx) hk

theorem addMessage_once {publish : Str → Publication → OnBroker (Option Nat)}
    (op : Str → Publication → HttpOp)
    (same : ∀ name pub b, after (publish name pub) b = after ((op name pub).run env) b)
    (target data : Bytes) (headers : Headers) :
    WithinOnce OnProtocol (Operates env) (addMessage publish target data headers) := by
  unfold addMessage
  refine withinOnce_attempt onProtocol_progress fun _ _ => ?_
  refine withinOnce_attempt onProtocol_progress fun read _ => ?_
  refine operate_then_send (publish_operates (op read.1 read.2) (same _ _)) fun tag => ?_
  cases tag with
  | none => exact send_onProtocol _
  | some tag => exact sendHttpResponseOk_onProtocol _

theorem onPost_once (target data : Bytes) (headers : Headers) :
    WithinOnce OnProtocol (Operates env) (onPost env target data headers) := by
  have attempt : ∀ {α β : Type} {x : Except PyError α} {k : α → OnHttp β},
      (∀ a, WithinOnce OnProtocol (Operates env) (k a)) →
        WithinOnce OnProtocol (Operates env) (attempt x >>= k) := fun hk =>
    withinOnce_attempt onProtocol_progress fun a _ => hk a
  unfold onPost
  refine withinOnce_ite (addMessage_once .publishMessage
    (fun _ _ b => (after_bind_pure _ _ b).symm) _ _ _) ?_
  refine withinOnce_ite (addMessage_once .publishMessageInQueue
    (fun _ _ b => (after_bind_pure _ _ b).symm) _ _ _) ?_
  refine withinOnce_ite (attempt fun _ => attempt fun _ => attempt fun name => attempt fun type =>
    operate_then_send (operates (.declareExchange name type) fun _ => rfl) fun _ =>
      sendHttpResponseOk_onProtocol _) ?_
  refine withinOnce_ite (attempt fun _ => attempt fun name =>
    operate_then_send (operates (.declareQueue name) fun _ => rfl) fun _ =>
      sendHttpResponseOk_onProtocol _) ?_
  exact withinOnce_of_within (send_onProtocol _)

theorem onDelete_once (target : Bytes) :
    WithinOnce OnProtocol (Operates env) (onDelete target) := by
  have attempt : ∀ {α β : Type} {x : Except PyError α} {k : α → OnHttp β},
      (∀ a, WithinOnce OnProtocol (Operates env) (k a)) →
        WithinOnce OnProtocol (Operates env) (attempt x >>= k) := fun hk =>
    withinOnce_attempt onProtocol_progress fun a _ => hk a
  unfold onDelete
  refine withinOnce_ite (attempt fun _ => attempt fun name =>
    operate_then_send (operates (.deleteMessagesOfQueue name) fun _ => rfl) fun _ =>
      send_onProtocol _) ?_
  refine withinOnce_ite (attempt fun _ => attempt fun name =>
    operate_then_send (operates (.deleteMessagesOfExchange name) fun _ => rfl) fun _ =>
      send_onProtocol _) ?_
  exact withinOnce_of_within (send_onProtocol _)

/-- An assignment to fields that are not the parser's. -/
theorem updateProtocol_onProtocol {g : HttpProtocol → HttpProtocol} (h : ∀ h, Handled h (g h)) :
    Within OnProtocol (updateProtocol g) := fun s => ⟨h s.1, rfl⟩

/-- The treatment of an event: steps on the protocol and at most one operation on the broker. -/
theorem treatEvent_once (e : H11Event) :
    WithinOnce OnProtocol (Operates env) (treatEvent env e) := by
  have hp := onProtocol_progress
  have same : ∀ {h h' : HttpProtocol}, h'.httpParser = h.httpParser → h'.closing = h.closing →
      h'.futures = h.futures → h'.responses = h.responses → Handled h h' :=
    fun parser closing futures responses => ⟨by rw [parser], by rw [parser], by rw [parser], closing,
      by rw [futures], .inl ⟨by rw [parser], responses⟩⟩
  cases e with
  | malformed e => exact withinOnce_of_within (within_pure hp _)
  | endOfMessage => exact withinOnce_of_within fun s => ⟨same rfl rfl rfl rfl, rfl⟩
  | request method target headers =>
      refine withinOnce_bind hp (within_read hp _) fun state => ?_
      refine withinOnce_ite ?_ (withinOnce_of_within (within_pure hp _))
      refine withinOnce_bind hp (updateProtocol_onProtocol fun _ => same rfl rfl rfl rfl) fun _ => ?_
      refine withinOnce_ite (operate_then_send (operates .reset fun _ => rfl) fun _ =>
        send_onProtocol _) ?_
      refine withinOnce_ite (withinOnce_of_within (onGet_onProtocol _)) ?_
      refine withinOnce_ite (onDelete_once _) ?_
      refine withinOnce_ite (withinOnce_of_within (updateProtocol_onProtocol fun _ =>
        same rfl rfl rfl rfl)) (withinOnce_of_within (within_pure hp _))
  | data data =>
      refine withinOnce_bind hp (within_read hp _) fun h => ?_
      refine withinOnce_ite ?_ (withinOnce_of_within (within_pure hp _))
      split
      · refine withinOnce_ite (onPost_once _ _ _) ?_
        exact withinOnce_ite (withinOnce_of_within (send_onProtocol _))
          (withinOnce_of_within (within_pure hp _))
      · exact withinOnce_of_within (within_raise hp _)

variable (env) in
theorem treatEvent_handled (e : H11Event) (s : HttpProtocol × Broker) :
    Handled s.1 (after (treatEvent env e) s).1 := by
  rcases treatEvent_once e s with quiet | ⟨m, n, before, operated, later⟩
  · exact quiet.1
  · exact before.1.trans (operated.1 ▸ later.1)

variable (env) in
theorem treatEvent_operates (e : H11Event) (s : HttpProtocol × Broker) :
    (after (treatEvent env e) s).2 = s.2 ∨
      ∃ op : HttpOp, (after (treatEvent env e) s).2 = after (op.run env) s.2 := by
  rcases treatEvent_once e s with quiet | ⟨m, n, before, ⟨_, op, ran⟩, later⟩
  · exact .inl quiet.2
  · exact .inr ⟨op, by rw [later.2, ran, before.2]⟩

end

end Http
end MockAmqp
