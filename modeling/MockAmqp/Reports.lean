import MockAmqp.Asking
import MockAmqp.Input
import MockAmqp.Service

/-!
# Waits in the service

What a client is told that asks for a wait, with everything else that the event loop does in the
meantime.
-/

namespace MockAmqp
open Exec

/-- The events of a request that a callback brings to a connection. -/
def Callback.sentTo (i : ConnId) : Callback → List Http.H11Event
  | .httpDataReceived j chunk => if j = i then chunk.events else []
  | _ => []

/-- The callback brings no bytes of another request to the connection. -/
def Callback.Alone (i : ConnId) : Callback → Prop
  | .httpDataReceived j chunk => j = i → chunk.following = false
  | _ => True

/-- The callback resumes the first coroutine of the connection. -/
def Callback.resumes (i : ConnId) : Callback → Bool
  | .resume j 0 => j = i
  | _ => false

/-- The callbacks bring one whole GET request to a connection, cut in any way. -/
structure Requests (i : ConnId) (cs : List Callback) (target : Bytes) (headers : Http.Headers)
    (pieces : List Bytes) : Prop where
  events : cs.flatMap (Callback.sentTo i) = Http.whole (ascii "GET") target headers pieces
  alone : ∀ a ∈ cs, a.Alone i

/-- A wait that has been resumed in these states. -/
def Coroutine.resumed (w : Wait) (seen : List State) : Coroutine :=
  seen.foldl (fun t s => t.resume s) (.start w)

namespace Service

/-- The state that a coroutine of the connection looks at. -/
def looked (i : ConnId) (p : Service) (a : Callback) : List State :=
  if a.resumes i && !(p.coroutines i).isEmpty then [p.server.broker.state] else []

/-- Nothing has been received on the connection. -/
structure Fresh (p : Service) (i : ConnId) : Prop where
  http : p.http i = .init
  coroutines : p.coroutines i = []

/-- Where a request for a wait stands, by the events still to come and the states looked at. -/
inductive Standing (i : ConnId) (target : Bytes) (headers : Http.Headers) (w : Wait)
    (left : List Http.H11Event) (seen : List State) (p : Service) : Prop
  | ahead {later : List Http.H11Event} (quiet : ∀ e ∈ later, e.Quiet)
      (asks : left = .request (ascii "GET") target headers :: later) (none : p.coroutines i = [])
      (unseen : seen = []) (silent : (p.http i).responses = [])
      (unanswered : (p.http i).httpParser.responded = false)
  | waits (quiet : ∀ e ∈ left, e.Quiet)
      (one : p.coroutines i = [.resumed w seen])
      (silent : (p.http i).responses = []) (unanswered : (p.http i).httpParser.responded = false)
  | ended (quiet : ∀ e ∈ left, e.Quiet) (none : p.coroutines i = [])
      (answered : (p.http i).responses.map Http.Response.statusCode =
        Http.statusOf (w.result (seen.take Wait.timeout)))

end Service

section
variable {env : Env} {refuses : Option PyError} {p : Service} {i : ConnId} {w : Wait}

theorem Wait.result_eq (w : Wait) (seen : List State) :
    w.result seen = Polling.outcome w.look (.error .waitTimeout) seen := by
  induction seen with
  | nil => rfl
  | cons s rest ih =>
      rw [Wait.result, Polling.outcome, List.findSome?_cons, Wait.look]
      cases w.poll s with
      | error e => rfl
      | ok found =>
          cases found with
          | none => exact ih
          | some r => rfl

theorem Coroutine.resumed_snoc (w : Wait) (seen : List State) (s : State) :
    Coroutine.resumed w (seen ++ [s]) = (Coroutine.resumed w seen).resume s := by
  rw [resumed, List.foldl_append]
  rfl

theorem Coroutine.resumed_eq (w : Wait) (seen : List State) : Coroutine.resumed w seen =
    ⟨w, seen.foldl (Polling.Task.resume w.look (.error .waitTimeout)) (.looking Wait.timeout)⟩ := by
  induction seen using List.reverseRecOn with
  | nil => rfl
  | append_singleton seen s ih =>
      rw [resumed_snoc, ih, List.foldl_append]
      rfl

/-- A wait ends with the result of its first ten looks. -/
theorem Coroutine.resumed_ended {v : Wait} {seen : List State} {result : Except PyError Bool}
    (ended : Coroutine.resumed w seen = ⟨v, .ended result⟩) :
    result = w.result (seen.take Wait.timeout) := by
  rw [resumed_eq] at ended
  rw [Wait.result_eq]
  exact Polling.outcome_of_ended (Coroutine.mk.inj ended).2

theorem Service.looked_empty (none : p.coroutines i = []) (a : Callback) : p.looked i a = [] := by
  simp [looked, none]

variable (p) in
theorem Callback.quiet_apart {a : Callback} (apart : a.calls i = false) :
    a.sentTo i = [] ∧ p.looked i a = [] := by
  cases a with
  | dataReceived c data => exact ⟨rfl, rfl⟩
  | connectionLost c => exact ⟨rfl, rfl⟩
  | httpDataReceived j chunk =>
      have other : j ≠ i := by simpa [calls] using apart
      exact ⟨if_neg other, rfl⟩
  | resume j k =>
      have other : j ≠ i := by simpa [calls] using apart
      refine ⟨rfl, ?_⟩
      cases k <;> simp [Service.looked, resumes, other]
  | getDone j k => exact ⟨rfl, rfl⟩

/-! ### Callbacks of the connection -/

theorem Service.Standing.same {q : Service} {left : List Http.H11Event} {seen : List State}
    {target : Bytes} {headers : Http.Headers} (h : Standing i target headers w left seen p)
    (http : q.http i = p.http i) (coroutines : q.coroutines i = p.coroutines i) :
    Standing i target headers w left seen q := by
  cases h with
  | ahead quiet asks none unseen silent unanswered =>
      exact .ahead quiet asks (coroutines.trans none) unseen (http ▸ silent) (http ▸ unanswered)
  | waits quiet one silent unanswered =>
      exact .waits quiet (coroutines.trans one) (http ▸ silent) (http ▸ unanswered)
  | ended quiet none answered => exact .ended quiet (coroutines.trans none) (http ▸ answered)

namespace Service
variable {left : List Http.H11Event} {seen : List State} {target : Bytes} {headers : Http.Headers}

variable (env refuses i) in
theorem step_coroutines (going : p.running = true) (chunk : Http.Chunk) :
    (step env refuses p (.httpDataReceived i chunk)).coroutines i = p.coroutines i ++
      ((Http.step env refuses (p.connection i) (.dataReceived chunk)).1.futures.drop
        (p.coroutines i).length).map .start := by
  simp only [step, going, if_true, called, Function.update_self, connection, List.length_map]

theorem connection_idle (idle : Http.Idle (p.connection i).1) : Http.Idle (p.http i) :=
  ⟨idle.opened, idle.waiting, idle.pending, idle.alone⟩

/-- Bytes of the request arrive. -/
theorem standing_chunk (going : p.running = true) (asks : Http.onGet target = Http.ensureFuture w)
    {chunk : Http.Chunk} (alone : chunk.following = false) (idle : Http.Idle (p.http i))
    (h : Standing i target headers w (chunk.events ++ left) seen p) :
    Http.Idle ((step env refuses p (.httpDataReceived i chunk)).http i) ∧
      Standing i target headers w left seen (step env refuses p (.httpDataReceived i chunk)) := by
  have rests : Http.Idle (p.connection i).1 := ⟨idle.opened, idle.waiting, idle.pending, idle.alone⟩
  have called := step_connection env refuses going i chunk
  have created := step_coroutines env refuses i going chunk
  by_cases quiet : ∀ e ∈ chunk.events, e.Quiet
  · obtain ⟨idle', same⟩ := Http.step_quiet env refuses rests quiet alone
    have futures : (p.connection i).1.futures.length = (p.coroutines i).length := List.length_map ..
    rw [same.futures, ← futures, List.drop_length, List.map_nil, List.append_nil] at created
    rw [← called] at idle' same
    refine ⟨connection_idle idle', ?_⟩
    have responses : ((step env refuses p (.httpDataReceived i chunk)).http i).responses =
        (p.http i).responses := same.responses
    have responded : ((step env refuses p (.httpDataReceived i chunk)).http i).httpParser.responded =
        (p.http i).httpParser.responded := same.responded
    cases h with
    | ahead later asked none unseen silent unanswered =>
        cases events : chunk.events with
        | nil =>
            rw [events, List.nil_append] at asked
            exact .ahead later asked (created.trans none) unseen (responses.trans silent)
              (responded.trans unanswered)
        | cons e rest =>
            rw [events] at asked quiet
            cases asked
            exact (quiet _ List.mem_cons_self).elim
    | waits later one silent unanswered =>
        exact .waits (fun e member => later e (List.mem_append_right _ member)) (created.trans one)
          (responses.trans silent) (responded.trans unanswered)
    | ended later none answered =>
        exact .ended (fun e member => later e (List.mem_append_right _ member)) (created.trans none)
          (by rw [responses, answered])
  · cases h with
    | waits later => exact absurd (fun e member => later e (List.mem_append_left _ member)) quiet
    | ended later => exact absurd (fun e member => later e (List.mem_append_left _ member)) quiet
    | ahead later asked none unseen silent unanswered =>
        cases events : chunk.events with
        | nil => exact absurd (by simp [events]) quiet
        | cons e rest =>
            rw [events] at asked
            obtain ⟨rfl, rfl⟩ := List.cons_eq_cons.mp asked
            obtain ⟨idle', same⟩ := Http.step_asks env refuses asks rests events
              (fun e member => later e (List.mem_append_left _ member)) alone
            have futures : (Http.step env refuses (p.connection i) (.dataReceived chunk)).1.futures =
                [w] := by
              rw [same.futures, connection, none]
              rfl
            rw [futures, none] at created
            rw [← called] at idle' same
            refine ⟨connection_idle idle', .waits (fun e member =>
              later e (List.mem_append_right _ member)) ?_ (same.responses.trans silent)
              (same.responded.trans unanswered)⟩
            rw [unseen]
            exact created

/-- A coroutine of the connection goes on. -/
theorem standing_resume (going : p.running = true) (k : Nat)
    (h : Standing i target headers w left seen p) :
    Standing i target headers w left (seen ++ p.looked i (.resume i k))
      (step env refuses p (.resume i k)) := by
  have resumed : (step env refuses p (.resume i k)).coroutines i =
      (p.coroutines i).modify k (Coroutine.resume p.server.broker.state) := by
    simp [step, going]
  have http : (step env refuses p (.resume i k)).http = p.http := by simp [step, going]
  cases h with
  | ahead later asked none unseen silent unanswered =>
      rw [looked_empty none, List.append_nil]
      rw [none, List.modify_nil] at resumed
      exact .ahead later asked resumed unseen (http ▸ silent) (http ▸ unanswered)
  | ended later none answered =>
      rw [looked_empty none, List.append_nil]
      rw [none, List.modify_nil] at resumed
      exact .ended later resumed (http ▸ answered)
  | waits later one silent unanswered =>
      rw [one] at resumed
      cases k with
      | zero =>
          have looks : p.looked i (.resume i 0) = [p.server.broker.state] := by
            simp [looked, Callback.resumes, one]
          rw [looks]
          refine .waits later ?_ (http ▸ silent) (http ▸ unanswered)
          rw [resumed, Coroutine.resumed_snoc]
          rfl
      | succ k =>
          have looks : p.looked i (.resume i (k + 1)) = [] := rfl
          rw [looks, List.append_nil]
          rw [List.modify_succ_cons, List.modify_nil] at resumed
          exact .waits later resumed (http ▸ silent) (http ▸ unanswered)

variable (env refuses) in
/-- The callback of a coroutine of the connection, which does nothing before the end of it. -/
theorem standing_getDone (going : p.running = true) (k : Nat) (idle : Http.Idle (p.http i))
    (h : Standing i target headers w left seen p) :
    Http.Idle ((step env refuses p (.getDone i k)).http i) ∧
      Standing i target headers w left seen (step env refuses p (.getDone i k)) := by
  by_cases done : ∃ v result, (p.coroutines i)[k]? = some ⟨v, .ended result⟩
  · obtain ⟨v, result, found⟩ := done
    have handled := (Http.onGetDone_handled result (p.connection i)).1
    have http : (step env refuses p (.getDone i k)).http i =
        (after (Http.onGetDone result) (p.connection i)).1 := by
      rw [step_getDone going found]
      exact Function.update_self i _ p.http
    have coroutines : (step env refuses p (.getDone i k)).coroutines i =
        (p.coroutines i).eraseIdx k := by
      rw [step_getDone going found]
      exact Function.update_self i _ p.coroutines
    rw [http]
    have reads := Http.onGetDone_reads result (p.connection i)
    refine ⟨⟨handled.closing.trans idle.opened, reads.state.trans idle.waiting,
      handled.pending.trans idle.pending, handled.following.trans idle.alone⟩, ?_⟩
    cases h with
    | ahead later asked none unseen silent unanswered =>
        rw [none] at found
        cases found
    | ended later none answered =>
        rw [none] at found
        cases found
    | waits later one silent unanswered =>
        obtain ⟨first, same⟩ := List.getElem?_eq_some_iff.mp found
        have zero : k = 0 := by
          rw [one, List.length_singleton] at first
          omega
        subst zero
        simp only [one, List.getElem_cons_zero] at same
        refine .ended later ?_ ?_
        · rw [coroutines, one]
          rfl
        · rw [http, ← Coroutine.resumed_ended same]
          exact Http.onGetDone_status silent unanswered result
  · rw [step_getDone_early going done]
    exact ⟨idle, h⟩

/-! ### Runs -/

variable (env refuses) in
/-- Each callback takes a request for a wait on. -/
theorem standing_step (going : p.running = true) (asks : Http.onGet target = Http.ensureFuture w)
    (a : Callback) (alone : a.Alone i) (idle : Http.Idle (p.http i))
    (h : Standing i target headers w (a.sentTo i ++ left) seen p) :
    Http.Idle ((step env refuses p a).http i) ∧
      Standing i target headers w left (seen ++ p.looked i a) (step env refuses p a) := by
  cases own : a.calls i with
  | false =>
      obtain ⟨nothing, unlooked⟩ := Callback.quiet_apart p own
      obtain ⟨http, coroutines⟩ := step_other env refuses p own
      rw [nothing, List.nil_append] at h
      rw [unlooked, List.append_nil, http]
      exact ⟨idle, h.same http coroutines⟩
  | true =>
      cases a with
      | dataReceived c data => cases own
      | connectionLost c => cases own
      | httpDataReceived j chunk =>
          obtain rfl : j = i := by simpa [Callback.calls] using own
          have events : (Callback.httpDataReceived j chunk).sentTo j = chunk.events := if_pos rfl
          have unlooked : p.looked j (.httpDataReceived j chunk) = [] := rfl
          rw [events] at h
          rw [unlooked, List.append_nil]
          exact standing_chunk going asks (alone rfl) idle h
      | resume j k =>
          obtain rfl : j = i := by simpa [Callback.calls] using own
          have http : (step env refuses p (.resume j k)).http = p.http := by simp [step, going]
          rw [http]
          exact ⟨idle, standing_resume going k h⟩
      | getDone j k =>
          obtain rfl : j = i := by simpa [Callback.calls] using own
          have unlooked : p.looked j (.getDone j k) = [] := rfl
          rw [unlooked, List.append_nil]
          exact standing_getDone env refuses going k idle h

variable (env refuses) in
theorem standing_run (asks : Http.onGet target = Http.ensureFuture w) {cs : List Callback}
    (alone : ∀ a ∈ cs, a.Alone i) (going : (Runs.run (step env refuses) p cs).running = true)
    (idle : Http.Idle (p.http i))
    (h : Standing i target headers w (cs.flatMap (Callback.sentTo i) ++ left) seen p) :
    Http.Idle ((Runs.run (step env refuses) p cs).http i) ∧
      Standing i target headers w left (seen ++ Runs.trail (step env refuses) (looked i) p cs)
        (Runs.run (step env refuses) p cs) := by
  induction cs generalizing p seen with
  | nil => exact ⟨idle, by simpa using h⟩
  | cons a rest ih =>
      have now : p.running = true := running_of_run env refuses (a :: rest) going
      rw [List.flatMap_cons, List.append_assoc] at h
      obtain ⟨idle', next⟩ := standing_step env refuses now asks a (alone a List.mem_cons_self) idle h
      rw [Runs.run_cons, Runs.trail_cons, ← List.append_assoc]
      exact ih (fun b member => alone b (List.mem_cons_of_mem a member)) going idle' next

variable (env refuses) in
/-- Without a request nothing is waited for. -/
theorem step_none (going : p.running = true) {a : Callback} (alone : a.Alone i)
    (idle : Http.Idle (p.http i)) (quiet : ∀ e ∈ a.sentTo i, e.Quiet) (none : p.coroutines i = []) :
    (step env refuses p a).coroutines i = [] := by
  cases own : a.calls i with
  | false => exact (step_other env refuses p own).2.trans none
  | true =>
      cases a with
      | dataReceived c data => cases own
      | connectionLost c => cases own
      | httpDataReceived j chunk =>
          obtain rfl : j = i := by simpa [Callback.calls] using own
          have events : (Callback.httpDataReceived j chunk).sentTo j = chunk.events := if_pos rfl
          rw [events] at quiet
          have rests : Http.Idle (p.connection j).1 :=
            ⟨idle.opened, idle.waiting, idle.pending, idle.alone⟩
          have same := (Http.step_quiet env refuses rests quiet (alone rfl)).2
          rw [step_coroutines env refuses j going, same.futures, connection, none]
          rfl
      | resume j k =>
          obtain rfl : j = i := by simpa [Callback.calls] using own
          simp [step, going, none]
      | getDone j k =>
          obtain rfl : j = i := by simpa [Callback.calls] using own
          simp [step, going, none]

theorem run_none (asks : Http.onGet target = Http.ensureFuture w) {cs : List Callback}
    (alone : ∀ a ∈ cs, a.Alone i) (going : (Runs.run (step env refuses) p cs).running = true)
    (idle : Http.Idle (p.http i))
    (quiet : ∀ e ∈ cs.flatMap (Callback.sentTo i) ++ left, e.Quiet)
    (h : Standing i target headers w (cs.flatMap (Callback.sentTo i) ++ left) seen p)
    (none : p.coroutines i = []) : (Runs.run (step env refuses) p cs).coroutines i = [] := by
  induction cs generalizing p seen with
  | nil => exact none
  | cons a rest ih =>
      have now : p.running = true := running_of_run env refuses (a :: rest) going
      have here := alone a List.mem_cons_self
      rw [List.flatMap_cons, List.append_assoc] at h quiet
      obtain ⟨idle', next⟩ := standing_step env refuses now asks a here idle h
      have still := step_none env refuses now here idle
        (fun e member => quiet e (List.mem_append_left _ member)) none
      exact ih (fun b member => alone b (List.mem_cons_of_mem a member)) going idle'
        (fun e member => quiet e (List.mem_append_right _ member)) next still

/-- As long as something is waited for behind the request, each resumption is a look. -/
theorem looks_counted (asks : Http.onGet target = Http.ensureFuture w) {cs : List Callback}
    (alone : ∀ a ∈ cs, a.Alone i) (going : (Runs.run (step env refuses) p cs).running = true)
    (idle : Http.Idle (p.http i))
    (quiet : ∀ e ∈ cs.flatMap (Callback.sentTo i) ++ left, e.Quiet)
    (h : Standing i target headers w (cs.flatMap (Callback.sentTo i) ++ left) seen p) :
    (Runs.run (step env refuses) p cs).coroutines i = [] ∨
      (Runs.trail (step env refuses) (looked i) p cs).length = cs.countP (Callback.resumes i) := by
  induction cs generalizing p seen with
  | nil => exact .inr rfl
  | cons a rest ih =>
      have now : p.running = true := running_of_run env refuses (a :: rest) going
      have here := alone a List.mem_cons_self
      by_cases none : p.coroutines i = []
      · exact .inl (run_none asks alone going idle quiet h none)
      · rw [List.flatMap_cons, List.append_assoc] at h quiet
        obtain ⟨idle', next⟩ := standing_step env refuses now asks a here idle h
        rcases ih (fun b member => alone b (List.mem_cons_of_mem a member)) going idle'
          (fun e member => quiet e (List.mem_append_right _ member)) next with ended | counted
        · exact .inl ended
        · refine .inr ?_
          have look : (p.looked i a).length = if a.resumes i then 1 else 0 := by
            cases resumed : a.resumes i <;> simp [looked, resumed, none]
          rw [Runs.trail_cons, List.length_append, look, counted, List.countP_cons, Nat.add_comm]

theorem Fresh.idle (fresh : p.Fresh i) : Http.Idle (p.http i) := by
  rw [fresh.http]
  exact ⟨rfl, rfl, rfl, rfl⟩

theorem whole_quiet (pieces : List Bytes) :
    ∀ e ∈ pieces.map Http.H11Event.data ++ [.endOfMessage], e.Quiet := by
  intro e member
  rcases List.mem_append.mp member with body | last
  · obtain ⟨piece, _, rfl⟩ := List.mem_map.mp body
    trivial
  · cases List.mem_singleton.mp last
    trivial

theorem Fresh.standing {cs : List Callback} {pieces : List Bytes} (fresh : p.Fresh i)
    (requests : Requests i cs target headers pieces) :
    Standing i target headers w (cs.flatMap (Callback.sentTo i) ++ []) [] p := by
  rw [List.append_nil, requests.events]
  have http := fresh.http
  exact .ahead (whole_quiet pieces) rfl fresh.coroutines rfl (by rw [http]; rfl) (by rw [http]; rfl)

/-- Behind the headers of the request everything is quiet. -/
theorem quiet_behind {first rest : List Callback} {pieces : List Bytes}
    (requests : Requests i (first ++ rest) target headers pieces)
    (received : first.flatMap (Callback.sentTo i) ≠ []) :
    ∀ e ∈ rest.flatMap (Callback.sentTo i) ++ [], e.Quiet := by
  obtain ⟨e, l, cut⟩ := List.exists_cons_of_ne_nil received
  have events := requests.events
  rw [List.flatMap_append, cut, Http.whole] at events
  intro e' member
  rw [List.append_nil] at member
  apply whole_quiet pieces
  rw [← (List.cons_eq_cons.mp events).2]
  exact List.mem_append_right _ member

/-- Looked at once more than it may, a wait is over when its callback runs. -/
theorem getDone_none (going : p.running = true) (enough : Wait.timeout < seen.length)
    (h : Standing i target headers w left seen p) (quiet : ∀ e ∈ left, e.Quiet) :
    (step env refuses p (.getDone i 0)).coroutines i = [] := by
  cases h with
  | ahead later asked =>
      rw [asked] at quiet
      exact (quiet _ List.mem_cons_self).elim
  | ended later none => simp [step, going, none]
  | waits later one =>
      obtain ⟨result, ended⟩ : ∃ result, seen.foldl (Polling.Task.resume w.look
          (.error .waitTimeout)) (.looking Wait.timeout) = .ended result :=
        Polling.ended_of_length enough
      rw [Coroutine.resumed_eq, ended] at one
      have found : (p.coroutines i)[0]? = some ⟨w, .ended result⟩ := by rw [one]; rfl
      rw [step_getDone going found]
      show Function.update p.coroutines i _ i = []
      rw [Function.update_self, one]
      rfl

/-- Resumed often enough behind its request, a wait is over once its callback has run. -/
theorem resumed_ends (asks : Http.onGet target = Http.ensureFuture w) {served later : List Callback}
    (alone : ∀ a ∈ served ++ .getDone i 0 :: later, a.Alone i)
    (going : (Runs.run (step env refuses) p (served ++ .getDone i 0 :: later)).running = true)
    (idle : Http.Idle (p.http i))
    (quiet : ∀ e ∈ (served ++ .getDone i 0 :: later).flatMap (Callback.sentTo i) ++ [], e.Quiet)
    (h : Standing i target headers w
      ((served ++ .getDone i 0 :: later).flatMap (Callback.sentTo i) ++ []) seen p)
    (resumed : Wait.timeout < served.countP (Callback.resumes i)) :
    (Runs.run (step env refuses) p (served ++ .getDone i 0 :: later)).coroutines i = [] := by
  have nothing : (Callback.getDone i 0 :: later).flatMap (Callback.sentTo i) =
      later.flatMap (Callback.sentTo i) := rfl
  rw [List.flatMap_append, List.append_assoc, nothing] at h quiet
  simp only [List.forall_mem_append, List.forall_mem_cons] at alone
  obtain ⟨alone₁, _, alone₂⟩ := alone
  rw [Runs.run_append, Runs.run_cons] at going ⊢
  have calls := running_of_run env refuses _ going
  have served₁ := running_of_run env refuses [.getDone i 0] calls
  obtain ⟨idle₁, standing₁⟩ := standing_run env refuses asks alone₁ served₁ idle h
  have counted := looks_counted asks alone₁ served₁ idle quiet h
  have behind : ∀ e ∈ later.flatMap (Callback.sentTo i) ++ [], e.Quiet :=
    fun e member => quiet e (List.mem_append_right _ member)
  generalize Runs.run (step env refuses) p served = q at going served₁ idle₁ standing₁ counted ⊢
  obtain ⟨idle₂, standing₂⟩ := standing_getDone env refuses served₁ 0 idle₁ standing₁
  apply run_none asks alone₂ going idle₂ behind standing₂
  rcases counted with none | looks
  · have silent : ∀ e ∈ Callback.sentTo i (.getDone i 0), e.Quiet := by simp [Callback.sentTo]
    exact step_none env refuses served₁ trivial idle₁ silent none
  · refine getDone_none served₁ ?_ standing₁ behind
    rw [List.length_append, looks]
    omega

end Service
end

open Service in
/-- A wait is answered by what its first ten looks at the state find, whatever the event loop calls
in between: with a response once it has been resumed often enough, whatever it has waited for. -/
theorem wait_answered (env : Env) (refuses : Option PyError) {p : Service} {i : ConnId}
    {target : Bytes} {headers : Http.Headers} {pieces : List Bytes} {w : Wait}
    {before served later : List Callback} (fresh : p.Fresh i)
    (asks : Http.onGet target = Http.ensureFuture w)
    (requests : Requests i (before ++ (served ++ .getDone i 0 :: later)) target headers pieces)
    (received : before.flatMap (Callback.sentTo i) ≠ [])
    (resumed : Wait.timeout < served.countP (Callback.resumes i))
    (going : (Runs.run (step env refuses) p
      (before ++ (served ++ .getDone i 0 :: later))).running = true) :
    ((Runs.run (step env refuses) p
        (before ++ (served ++ .getDone i 0 :: later))).http i).responses.map
          Http.Response.statusCode =
      Http.statusOf (w.result ((Runs.trail (step env refuses) (looked i) p
        (before ++ (served ++ .getDone i 0 :: later))).take Wait.timeout)) := by
  have start : Standing i target headers w _ [] p := fresh.standing requests
  have final := (standing_run env refuses asks requests.alone going fresh.idle start).2
  rw [List.nil_append] at final
  have none : (Runs.run (step env refuses) p
      (before ++ (served ++ .getDone i 0 :: later))).coroutines i = [] := by
    have alone := requests.alone
    rw [List.flatMap_append, List.append_assoc] at start
    rw [Runs.run_append] at going ⊢
    have going₁ := running_of_run env refuses _ going
    have alone₁ := fun a member => alone a (List.mem_append_left _ member)
    have alone₂ := fun a member => alone a (List.mem_append_right _ member)
    obtain ⟨idle, standing⟩ := standing_run env refuses asks alone₁ going₁ fresh.idle start
    exact resumed_ends asks alone₂ going idle (quiet_behind requests received) standing resumed
  cases final with
  | ahead _ asked => cases asked
  | waits _ one =>
      rw [one] at none
      cases none
  | ended _ _ answered => exact answered

/-! ## Reports about deliveries -/

section
variable {env : Env} {refuses : Option PyError} {k : Verdict} {tag : Int}

theorem Verdict.mem_init : ¬ tag ∈ (k.recorded (State.init env)).elems := by
  cases k <;> exact List.not_mem_nil

/-- What is recorded after a turn was recorded before it, or is given in it. -/
theorem turn_given (b : Broker) (t : Turn)
    (recorded : tag ∈ (k.recorded (Turn.step env b t).state).elems) :
    tag ∈ (k.recorded b.state).elems ∨ ∃ c, k.givenIn b t = some (c, tag) := by
  by_cases reset : t = .http .reset
  · subst reset
    have fresh : (Turn.step env b (.http .reset)).state = State.init env := rfl
    rw [fresh] at recorded
    exact absurd recorded Verdict.mem_init
  · exact (turn_recorded reset).mp recorded

theorem Server.turnsOf_http (s : Server) (ops : List HttpOp) :
    Server.turnsOf env s (ops.map .http) = ops.map .http := by
  induction ops generalizing s with
  | nil => rfl
  | cons op rest ih => exact congrArg (.http op :: ·) (ih _)

/-- An AMQP client gives a verdict on a delivery, in a frame that the callback has treated. -/
def GivesVerdict (env : Env) (k : Verdict) (tag : Int) (p : Service) (a : Callback) : Prop :=
  ∃ c data turns f more, a = .dataReceived c data ∧
    Server.turns env p.server (.dataReceived c data) = turns ++ .frame c f :: more ∧
    k.givenIn (Runs.run (Turn.step env) p.server.broker turns) (.frame c f) = some (c, tag)

theorem callback_given (p : Service) (a : Callback)
    (recorded : tag ∈ (k.recorded (Service.step env refuses p a).server.broker.state).elems) :
    tag ∈ (k.recorded p.server.broker.state).elems ∨ GivesVerdict env k tag p a := by
  cases going : p.running with
  | false =>
      rw [Service.step_stopped going] at recorded
      exact .inl recorded
  | true =>
      obtain ⟨part, does, same⟩ := step_does env refuses going a
      rw [same, Server.run_refines] at recorded
      rcases Runs.came_about (Q := fun b : Broker => tag ∈ (k.recorded b.state).elems) turn_given
        recorded with old | ⟨turns, t, more, cut, c, given⟩
      · exact .inl old
      · obtain ⟨f, rfl, _⟩ := Verdict.givenIn_frame given
        have member : .frame c f ∈ Server.turnsOf env p.server part := by simp [cut]
        cases does with
        | dataReceived c' data =>
            rw [Server.turnsOf, Server.turnsOf, List.append_nil] at cut member
            have own : c' = c := by
              rcases turns_conn member with conn | conn
              · exact (Option.some.inj conn).symm
              · cases conn
            subst own
            exact .inr ⟨c', data, turns, f, more, rfl, cut, given⟩
        | connectionLost c' => simp [Server.turnsOf, Server.turns] at member
        | httpDataReceived i chunk ops =>
            rw [Server.turnsOf_http] at member
            simp at member
        | resume i k => cases member
        | getDone i k => cases member

end

open Service in
/-- A client that is told of an acknowledgement, a refusal or a requeueing is told what an AMQP
client has said about a delivery of that tag, on an open channel and earlier. -/
theorem report_given (env : Env) (refuses : Option PyError) (draws : Nat → Draw) {k : Verdict}
    {tag : Int} {i : ConnId} {target : Bytes} {headers : Http.Headers} {pieces : List Bytes}
    {cs : List Callback} (asks : Http.onGet target = Http.ensureFuture (k.wait tag))
    (requests : Requests i cs target headers pieces)
    (going : (Runs.run (step env refuses) (init env draws) cs).running = true)
    (reported : 204 ∈ ((Runs.run (step env refuses) (init env draws) cs).http i).responses.map
      Http.Response.statusCode) :
    ∃ before a later, cs = before ++ a :: later ∧
      GivesVerdict env k tag (Runs.run (step env refuses) (init env draws) before) a := by
  have fresh : (init env draws).Fresh i := ⟨rfl, rfl⟩
  have final := (standing_run env refuses asks requests.alone going fresh.idle
    (fresh.standing requests)).2
  have silent : ((Runs.run (step env refuses) (init env draws) cs).http i).responses ≠ [] := by
    intro none
    rw [none] at reported
    cases reported
  cases final with
  | ahead _ _ _ _ none => exact absurd none silent
  | waits _ _ none => exact absurd none silent
  | ended _ _ answered =>
      rw [answered, List.nil_append] at reported
      obtain ⟨s, member, recorded⟩ := Verdict.wait_result.mp (Http.statusOf_noContent reported)
      obtain ⟨past, look, rest, cut, looks⟩ := Runs.mem_trail (List.mem_of_mem_take member)
      have now : s = (Runs.run (step env refuses) (init env draws) past).server.broker.state := by
        unfold looked at looks
        split at looks
        · exact List.mem_singleton.mp looks
        · cases looks
      rw [now] at recorded
      rcases Runs.came_about (Q := fun p : Service => tag ∈ (k.recorded p.server.broker.state).elems)
        callback_given recorded with old | ⟨before, a, later, same, given⟩
      · exact absurd old Verdict.mem_init
      · exact ⟨before, a, later ++ look :: rest, by rw [cut, same]; simp, given⟩

/-! ## An acknowledgement that is waited for -/

/-- What an AMQP client does, as callbacks. -/
def Action.callbacks : Action → List Callback
  | .dataReceived c data => [.dataReceived c data]
  | .connectionLost c => [.connectionLost c]
  | .http _ => []

/-- A request for the acknowledgement of delivery 7. -/
def askAcknowledged : List Callback :=
  [.httpDataReceived 0 { events :=
    [.request (ascii "GET") (ascii "/messages-acknowledged/7") []], following := false }]

/-- After the first look an AMQP client logs in and acknowledges the delivery. -/
def acknowledging : List Callback :=
  .resume 0 0 :: .httpDataReceived 0 { events := [.endOfMessage], following := false } ::
    (logIn 1 ++ [Action.dataReceived 1 (methodBytes 1 60 80 "Lb" [.int 7, .bool false])]).flatMap
      Action.callbacks ++ List.replicate 10 (.resume 0 0)

def toldOfAcknowledgement : List Callback := askAcknowledged ++ (acknowledging ++ [.getDone 0 0])

theorem askAcknowledged_asks : Http.onGet (ascii "/messages-acknowledged/7") =
    Http.ensureFuture (Verdict.acknowledged.wait 7) := by
  have named : Http.lastPart (ascii "/messages-acknowledged/7") = .ok (ascii "7") := by
    decide +kernel
  have read : Http.readTag (ascii "7") = .ok 7 := by decide +kernel
  exact Http.onGet_verdict (k := .acknowledged) (by decide) named read

theorem toldOfAcknowledgement_requests :
    Requests 0 toldOfAcknowledgement (ascii "/messages-acknowledged/7") [] [] where
  events := rfl
  alone := by
    intro a member
    cases a with
    | httpDataReceived j chunk =>
        intro _
        simp [toldOfAcknowledgement, askAcknowledged, acknowledging, logIn, Action.callbacks]
          at member
        rcases member with ⟨_, rfl⟩ | ⟨_, rfl⟩ <;> rfl
    | _ => trivial

theorem seven_drawn : 1 ≤ 7 ∧ 7 ≤ 2 ^ 31 := by decide

def guestService : Service := Service.init guestEnv fun _ => ⟨7, seven_drawn⟩

theorem acknowledgement_answered :
    ((Runs.run (Service.step guestEnv none) guestService toldOfAcknowledgement).http 0
      ).responses.map Http.Response.statusCode = [204] := by
  unfold toldOfAcknowledgement
  have going : (Runs.run (Service.step guestEnv none) guestService
      (askAcknowledged ++ (acknowledging ++ [.getDone 0 0]))).running = true := by decide +kernel
  have found : Http.statusOf ((Verdict.acknowledged.wait 7).result
      ((Runs.trail (Service.step guestEnv none) (Service.looked 0) guestService
        (askAcknowledged ++ (acknowledging ++ [.getDone 0 0]))).take Wait.timeout)) = [204] := by
    decide +kernel
  have received : askAcknowledged.flatMap (Callback.sentTo 0) ≠ [] := by
    simp [askAcknowledged, Callback.sentTo]
  refine Eq.trans ?_ found
  exact wait_answered guestEnv none ⟨rfl, rfl⟩ askAcknowledged_asks toldOfAcknowledgement_requests
    received (by decide +kernel) going

theorem acknowledgement_was_given : ∃ before a later, toldOfAcknowledgement = before ++ a :: later ∧
    GivesVerdict guestEnv .acknowledged 7
      (Runs.run (Service.step guestEnv none) guestService before) a :=
  report_given guestEnv none _ askAcknowledged_asks toldOfAcknowledgement_requests
    (by decide +kernel) (by decide +kernel)

end MockAmqp
