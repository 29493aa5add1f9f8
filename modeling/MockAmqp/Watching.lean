import MockAmqp.Lib.Lockstep
import MockAmqp.Reports

/-!
# Clients that only watch

HTTP connections that send neither MOCK_FLUSH nor DELETE nor POST leave the server and every other
connection as they would be without them.
-/

namespace MockAmqp
open Exec

namespace Http

/-- Not a request that acts on the state. -/
def H11Event.Watches : H11Event → Prop
  | .request method _ _ =>
      method ≠ ascii "MOCK_FLUSH" ∧ method ≠ ascii "DELETE" ∧ method ≠ ascii "POST"
  | _ => True

/-- No piece of a body is still to be posted. -/
def Unposted (h : HttpProtocol) : Prop := h.state = .waitingBody → h.method ≠ some (ascii "POST")

/-- A connection on which no request has acted on the state or is going to. -/
structure Watching (h : HttpProtocol) : Prop where
  unposted : Unposted h
  pending : ∀ e ∈ h.httpParser.pending, e.Watches
  alone : h.httpParser.following = false

section
variable {env : Env} {refuses : Option PyError} {s : HttpProtocol × Broker}

theorem Reads.unposted {t : HttpProtocol × Broker} (reads : Reads s t) (h : Unposted s.1) :
    Unposted t.1 := by
  unfold Unposted
  rw [reads.state, reads.method]
  exact h

theorem ensureFuture_reads (w : Wait) : Within Reads (ensureFuture w) :=
  fun _ => ⟨rfl, rfl, rfl⟩

theorem sendMessages_reads (messages : Option (List Val)) : Within Reads (sendMessages messages) := by
  cases messages with
  | none => exact send_reads _
  | some messages => exact within_ite (send_reads _) (within_raise reads_progress _)

theorem onGet_reads (target : Bytes) : Within Reads (onGet target) := by
  have hp := reads_progress
  have future : ∀ {α : Type} {x : Except PyError α} {w : α → Wait},
      Within Reads (attempt x >>= fun a => ensureFuture (w a)) :=
    within_attempt_bind hp fun a _ => ensureFuture_reads _
  have futureOf : ∀ {α β : Type} {x : Except PyError α} {y : α → Except PyError β} {w : α → β → Wait},
      Within Reads (attempt x >>= fun a => attempt (y a) >>= fun b => ensureFuture (w a b)) :=
    within_attempt_bind hp fun a _ => future
  have messages : ∀ {α β : Type} {x : Except PyError α} {y : α → Except PyError β}
      {z : β → State → Except PyError (Option (List Val))},
      Within Reads (attempt x >>= fun a => attempt (y a) >>= fun b =>
        read (fun s : HttpProtocol × Broker => s.2.state) >>= fun s =>
          attempt (z b s) >>= sendMessages) := by
    intro α β x y z
    apply within_attempt_bind hp
    intro a _
    apply within_attempt_bind hp
    intro b _
    apply within_bind hp (within_read hp _)
    intro s
    exact within_attempt_bind hp fun m _ => sendMessages_reads m
  unfold onGet
  apply within_ite
  · apply within_bind hp (within_read hp _)
    intro s
    exact within_ite (send_reads _) (within_raise hp _)
  apply within_ite future
  apply within_ite futureOf
  apply within_ite futureOf
  apply within_ite futureOf
  apply within_ite messages
  apply within_ite messages
  apply within_ite
  · split
    · exact futureOf
    · exact within_raise hp _
  exact send_reads _

variable (env) in
/-- An event of a watching client is treated without an operation on the broker. -/
theorem treatEvent_watches {e : H11Event} (watches : e.Watches) (h : Unposted s.1) :
    Unposted (after (treatEvent env e) s).1 ∧ (after (treatEvent env e) s).2 = s.2 := by
  cases e with
  | malformed x => exact ⟨h, rfl⟩
  | endOfMessage =>
      refine ⟨fun waits => ?_, rfl⟩
      cases waits
  | data piece =>
      cases waiting : s.1.state with
      | waitingHeaders =>
          rw [after_ok (treatEvent_ignores waiting piece)]
          exact ⟨h, rfl⟩
      | waitingBody =>
          have other : ¬ s.1.method = some (ascii "POST") := h waiting
          suffices reads : Reads s (after (treatEvent env (.data piece)) s) from
            ⟨reads.unposted h, reads.broker⟩
          cases asked : s.1.target with
          | none =>
              have fails : treatEvent env (.data piece) s = .error .attributeError s := by
                simp only [treatEvent, bind_apply, read_apply, if_pos waiting, asked, raise_apply]
              rw [after_error fails]
              exact reads_progress.refl s
          | some target =>
              cases described : s.1.headers with
              | none =>
                  have fails : treatEvent env (.data piece) s = .error .attributeError s := by
                    simp only [treatEvent, bind_apply, read_apply, if_pos waiting, asked, described,
                      raise_apply]
                  rw [after_error fails]
                  exact reads_progress.refl s
              | some headers =>
                  have treats : treatEvent env (.data piece) s =
                      (if s.1.method = some (ascii "PUT") then onPut target piece
                        else pure ()) s := by
                    rw [treatEvent_data waiting asked described, if_neg other]
                  rw [after_congr treats]
                  exact within_ite (send_reads _) (within_pure reads_progress _) s
  | request method target headers =>
      obtain ⟨flush, delete, post⟩ := watches
      cases waiting : s.1.state with
      | waitingBody =>
          have ignored : treatEvent env (.request method target headers) s = .ok () s := by
            simp [treatEvent, bind_apply, read_apply, waiting]
          rw [after_ok ignored]
          exact ⟨h, rfl⟩
      | waitingHeaders =>
          by_cases get : method = ascii "GET"
          · have treats : treatEvent env (.request method target headers) s = onGet target ({ s.1 with
                method := some method, target := some target, headers := some headers }, s.2) := by
              rw [treatEvent_request waiting, if_neg flush, if_pos get]
            have reads := onGet_reads target ({ s.1 with
              method := some method, target := some target, headers := some headers }, s.2)
            rw [after_congr treats]
            refine ⟨fun waits => ?_, reads.broker⟩
            rw [reads.state, waiting] at waits
            cases waits
          · have later : ¬ AtOnce method := by
              rintro (no | no | no)
              · exact flush no
              · exact get no
              · exact delete no
            by_cases put : WithBody method
            · rw [after_ok (treatEvent_withBody waiting put)]
              exact ⟨fun _ no => post (Option.some.inj no), rfl⟩
            · rw [after_ok (treatEvent_unknown waiting later put)]
              refine ⟨fun waits => ?_, rfl⟩
              rw [show _ = RequestState.waitingHeaders from waiting] at waits
              cases waits

variable (env) in
theorem treatPending_watches {l : List H11Event} (watches : ∀ e ∈ l, e.Watches)
    (pending : s.1.httpParser.pending = l) (alone : s.1.httpParser.following = false)
    (h : Unposted s.1) : Watching (after (treatPending env l) s).1 ∧
      (after (treatPending env l) s).2 = s.2 := by
  induction l generalizing s with
  | nil => exact ⟨⟨h, fun e member => watches e (pending ▸ member), alone⟩, rfl⟩
  | cons e rest ih =>
      have here := watches e List.mem_cons_self
      have later := fun e' member => watches e' (List.mem_cons_of_mem e member)
      have free : s.1.httpParser.blocked = false := by
        rw [Connection.blocked, alone, Bool.and_false]
      have treats : treatPending env (e :: rest) s = (takeEvent e rest >>= fun _ =>
          treatEvent env e >>= fun _ => treatPending env rest) s := treatPending_free free e rest
      by_cases proper : ∃ x, e = .malformed x
      · obtain ⟨x, rfl⟩ := proper
        rw [after_congr treats]
        exact ⟨⟨h, fun e' member => watches e' (pending ▸ member), alone⟩, rfl⟩
      · let s' := reparse rest s.1.httpParser.following (s.1.httpParser.readAll || e.isEnd) s
        have takes : takeEvent e rest s = .ok () s' :=
          takeEvent_ok (fun x same => proper ⟨x, same⟩) rest s
        obtain ⟨unposted, broker⟩ := treatEvent_watches env (s := s') here h
        have handled := treatEvent_handled env e s'
        rw [bind_ok takes, bind_apply] at treats
        cases result : treatEvent env e s' with
        | ok u t =>
            rw [result] at treats
            rw [after_ok result] at unposted broker handled
            obtain ⟨ended, same⟩ := ih later handled.pending (handled.following.trans alone) unposted
            rw [after_congr treats]
            exact ⟨ended, same.trans broker⟩
        | error x t =>
            rw [result] at treats
            rw [after_error result] at unposted broker handled
            have left : t.1.httpParser.pending = rest := handled.pending
            rw [after_error treats]
            exact ⟨⟨unposted, fun e' member => later e' (left ▸ member),
              handled.following.trans alone⟩, broker⟩

theorem failed_watches (h : Watching s.1) : Watching (failed s).1 ∧ (failed s).2 = s.2 := by
  cases answered : s.1.httpParser.responded with
  | true =>
      rw [failed_answered answered]
      exact ⟨h, rfl⟩
  | false =>
      obtain ⟨r, _, same⟩ := failed_unanswered answered
      rw [same]
      exact ⟨⟨h.unposted, h.pending, h.alone⟩, rfl⟩

variable (env refuses) in
/-- Bytes of a watching client. -/
theorem step_watches (h : Watching s.1) {chunk : Chunk} (watches : ∀ e ∈ chunk.events, e.Watches)
    (alone : chunk.following = false) :
    Watching (step env refuses s (.dataReceived chunk)).1 ∧
      (step env refuses s (.dataReceived chunk)).2 = s.2 := by
  cases opened : s.1.closing with
  | true =>
      simp only [step, opened, if_true, and_true]
      exact h
  | false =>
      have none : (s.1.httpParser.following || chunk.following) = false := by
        rw [h.alone, alone, Bool.or_self]
      have all : ∀ e ∈ s.1.httpParser.pending ++ chunk.events, e.Watches := by
        intro e member
        rcases List.mem_append.mp member with old | new
        · exact h.pending e old
        · exact watches e new
      have treated := treatPending_watches env (s := received chunk s) all rfl none h.unposted
      rw [step_chunk opened none]
      cases result : treatPending env (s.1.httpParser.pending ++ chunk.events) (received chunk s) with
      | ok u t =>
          rw [after_ok result] at treated
          exact treated
      | error e t =>
          rw [after_error result] at treated
          obtain ⟨watching, same⟩ := failed_watches treated.1
          exact ⟨watching, same.trans treated.2⟩

theorem getDone_watches (h : Watching s.1) (result : Except PyError Bool) :
    Watching (after (onGetDone result) s).1 ∧ (after (onGetDone result) s).2 = s.2 := by
  have reads := onGetDone_reads result s
  have handled := (onGetDone_handled result s).1
  refine ⟨⟨reads.unposted h.unposted, fun e member => h.pending e (handled.pending ▸ member), ?_⟩,
    reads.broker⟩
  exact handled.following.trans h.alone

end
end Http

/-! ## The service without them -/

/-- The callback is one of a connection in the set. -/
def Callback.calledBy (watch : ConnId → Bool) : Callback → Bool
  | .httpDataReceived i _ | .resume i _ | .getDone i _ => watch i
  | _ => false

/-- What the callback brings to a connection in the set is of a client that only watches. -/
def Callback.Watches (watch : ConnId → Bool) : Callback → Prop
  | .httpDataReceived i chunk =>
      watch i = true → chunk.following = false ∧ ∀ e ∈ chunk.events, e.Watches
  | _ => True

/-- The services are the same but for the connections in the set. -/
structure SameBut (watch : ConnId → Bool) (p q : Service) : Prop where
  server : p.server = q.server
  running : p.running = q.running
  http : ∀ i, watch i = false → p.http i = q.http i
  coroutines : ∀ i, watch i = false → p.coroutines i = q.coroutines i

section
variable {watch : ConnId → Bool} {p q : Service}

theorem SameBut.whether (same : SameBut watch p q) (running : Bool) :
    SameBut watch { p with running } { q with running } :=
  ⟨same.server, rfl, same.http, same.coroutines⟩

theorem SameBut.connection {i : ConnId} (same : SameBut watch p q) (apart : watch i = false) :
    p.connection i = q.connection i := by
  simp only [Service.connection, same.server, same.http i apart, same.coroutines i apart]

theorem SameBut.called {i : ConnId} (same : SameBut watch p q) (s : Http.HttpProtocol × Broker)
    (l : List Coroutine) : SameBut watch (p.called i s l) (q.called i s l) where
  server := by simp only [Service.called, same.server]
  running := same.running
  http := by
    intro j apart
    by_cases own : j = i
    · subst own
      simp [Service.called]
    · simp [Service.called, own, same.http j apart]
  coroutines := by
    intro j apart
    by_cases own : j = i
    · subst own
      simp [Service.called]
    · simp [Service.called, own, same.coroutines j apart]

end

namespace Service
section
variable {env : Env} {refuses : Option PyError} {watch : ConnId → Bool} {p q : Service}

theorem connection_watching {i : ConnId} (h : Http.Watching (p.http i)) :
    Http.Watching (p.connection i).1 := ⟨h.unposted, h.pending, h.alone⟩

theorem called_but {i : ConnId} {s : Http.HttpProtocol × Broker} {l : List Coroutine}
    (watched : watch i = true) (broker : s.2 = p.server.broker) (same : SameBut watch p q) :
    SameBut watch (p.called i s l) q where
  server := by
    rw [← same.server]
    simp only [called, broker]
  running := same.running
  http := by
    intro j apart
    have other : j ≠ i := fun no => by simp [no, watched] at apart
    exact (Function.update_of_ne other _ _).trans (same.http j apart)
  coroutines := by
    intro j apart
    have other : j ≠ i := fun no => by simp [no, watched] at apart
    exact (Function.update_of_ne other _ _).trans (same.coroutines j apart)

theorem called_watching {i : ConnId} {s : Http.HttpProtocol × Broker} (l : List Coroutine)
    (watching : ∀ j, watch j = true → Http.Watching (p.http j)) (new : Http.Watching s.1) (j : ConnId)
    (watched : watch j = true) : Http.Watching ((p.called i s l).http j) := by
  by_cases own : j = i
  · subst own
    have http : (p.called j s l).http j = s.1 := by simp [called]
    rw [http]
    exact new
  · have http : (p.called i s l).http j = p.http j := by simp [called, own]
    rw [http]
    exact watching j watched

variable (env refuses) in
/-- A callback of a watching client. -/
theorem watching_idle {a : Callback} (watches : a.Watches watch) (own : a.calledBy watch = true)
    (watching : ∀ i, watch i = true → Http.Watching (p.http i)) (same : SameBut watch p q) :
    (∀ i, watch i = true → Http.Watching ((step env refuses p a).http i)) ∧
      SameBut watch (step env refuses p a) q := by
  cases going : p.running with
  | false =>
      rw [step_stopped going]
      exact ⟨watching, same⟩
  | true =>
      cases a with
      | dataReceived c data => cases own
      | connectionLost c => cases own
      | httpDataReceived i chunk =>
          obtain ⟨alone, events⟩ := watches own
          have here := connection_watching (watching i own)
          obtain ⟨still, broker⟩ := Http.step_watches env refuses here events alone
          have returns : Http.returns env refuses (p.connection i) chunk = true := by
            rw [Http.returns_alone]
            rw [here.alone, alone, Bool.or_self]
          rw [step_httpDataReceived env refuses going returns]
          exact ⟨called_watching _ watching still, called_but own broker same⟩
      | resume i k =>
          rw [step_resume env refuses going]
          refine ⟨watching, same.server, same.running, same.http, fun j apart => ?_⟩
          have other : j ≠ i := fun no => by
            rw [no] at apart
            exact Bool.false_ne_true (apart.symm.trans own)
          exact (Function.update_of_ne other _ _).trans (same.coroutines j apart)
      | getDone i k =>
          have here := connection_watching (watching i own)
          by_cases done : ∃ v result, (p.coroutines i)[k]? = some ⟨v, .ended result⟩
          · obtain ⟨v, result, found⟩ := done
            obtain ⟨still, broker⟩ := Http.getDone_watches here result
            rw [step_getDone going found]
            exact ⟨called_watching _ watching still, called_but own broker same⟩
          · rw [step_getDone_early going done]
            exact ⟨watching, same⟩

variable (env refuses) in
/-- Any other callback does the same in both services. -/
theorem others_alike {a : Callback} (other : a.calledBy watch = false) (same : SameBut watch p q) :
    SameBut watch (step env refuses p a) (step env refuses q a) := by
  cases going : p.running with
  | false =>
      rw [step_stopped going, step_stopped (same.running.symm.trans going)]
      exact same
  | true =>
      have alike : q.running = true := same.running.symm.trans going
      cases a with
      | dataReceived c data =>
          simp only [step, going, alike, if_true, same.server]
          exact ⟨rfl, rfl, same.http, same.coroutines⟩
      | connectionLost c =>
          simp only [step, going, alike, if_true, same.server]
          exact ⟨rfl, rfl, same.http, same.coroutines⟩
      | httpDataReceived i chunk =>
          have connection : p.connection i = q.connection i := same.connection other
          simp only [step, going, alike, if_true, connection, same.coroutines i other]
          exact (same.called _ _).whether _
      | resume i k =>
          rw [step_resume env refuses going, step_resume env refuses alike, same.server,
            same.coroutines i other]
          have both := same.called (i := i) (p.connection i)
          exact ⟨rfl, same.running, same.http, (both _).coroutines⟩
      | getDone i k =>
          by_cases done : ∃ v result, (p.coroutines i)[k]? = some ⟨v, .ended result⟩
          · obtain ⟨v, result, found⟩ := done
            have found' := found
            rw [same.coroutines i other] at found'
            rw [step_getDone going found, step_getDone alike found', same.connection other,
              same.coroutines i other]
            exact same.called _ _
          · rw [step_getDone_early going done, step_getDone_early alike]
            · exact same
            · rwa [← same.coroutines i other]

end
end Service

theorem Callback.calls_of_calledBy {watch : ConnId → Bool} {a : Callback}
    (other : a.calledBy watch = false) {i : ConnId} (watched : watch i = true) :
    a.calls i = false := by
  cases a with
  | dataReceived c data => rfl
  | connectionLost c => rfl
  | httpDataReceived j chunk | resume j k | getDone j k =>
      refine decide_eq_false ?_
      rintro rfl
      exact Bool.false_ne_true (other.symm.trans watched)

open Service in
/-- Clients that only watch make no difference: without all their callbacks the server and every
other HTTP connection are the same, whatever the order in which the event loop calls. -/
theorem watching_does_not_matter (env : Env) (refuses : Option PyError) {watch : ConnId → Bool}
    {p : Service} {cs : List Callback} (fresh : ∀ i, watch i = true → p.Fresh i)
    (watches : ∀ a ∈ cs, a.Watches watch) :
    SameBut watch (Runs.run (step env refuses) p cs)
      (Runs.run (step env refuses) p (cs.filter fun a => !a.calledBy watch)) := by
  let R := fun q r : Service =>
    (∀ i, watch i = true → Http.Watching (q.http i)) ∧ SameBut watch q r
  have start : R p p := by
    refine ⟨fun i watched => ?_, rfl, rfl, fun _ _ => rfl, fun _ _ => rfl⟩
    rw [(fresh i watched).http]
    exact ⟨fun no => (by cases no), fun e no => (by cases no), rfl⟩
  have one : ∀ q r a, (!a.calledBy watch) = true → R q r →
      R (step env refuses q a) (step env refuses r a) := by
    rintro q r a other ⟨watching, same⟩
    have apart : a.calledBy watch = false := by simpa using other
    refine ⟨fun i watched => ?_, others_alike env refuses apart same⟩
    rw [(step_other env refuses q (Callback.calls_of_calledBy apart watched)).1]
    exact watching i watched
  have idle : ∀ q r a, a.Watches watch → (!a.calledBy watch) = false → R q r →
      R (step env refuses q a) r := by
    rintro q r a harmless own ⟨watching, same⟩
    exact watching_idle env refuses harmless (by simpa using own) watching same
  exact (Runs.related_filter_on one idle start watches).2

/-- The client that waits for an acknowledgement is one of them. -/
theorem waiting_does_not_matter :
    SameBut (fun i => i = 0)
      (Runs.run (Service.step guestEnv none) guestService toldOfAcknowledgement)
      (Runs.run (Service.step guestEnv none) guestService
        (toldOfAcknowledgement.filter fun a => !a.calledBy fun i => i = 0)) := by
  refine watching_does_not_matter guestEnv none (fun i _ => ⟨rfl, rfl⟩) ?_
  intro a member
  cases a with
  | httpDataReceived j chunk =>
      intro _
      simp [toldOfAcknowledgement, askAcknowledged, acknowledging, logIn, Action.callbacks]
        at member
      rcases member with ⟨_, rfl⟩ | ⟨_, rfl⟩
      · refine ⟨rfl, ?_⟩
        simp only [List.mem_singleton, forall_eq]
        exact ⟨by decide, by decide, by decide⟩
      · simp [Http.H11Event.Watches]
  | _ => trivial

end MockAmqp
