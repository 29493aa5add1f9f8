import MockAmqp.Routing
import MockAmqp.Acknowledgements
import MockAmqp.Text

/-!
# Waits among other operations

A wait polls the state and sleeps in turn, and operations of other connections run during its
sleeps. When its timeout is right, and what the wait for a login remembers of the attempts.
-/

namespace MockAmqp
open Exec

namespace Wait

/-- The coroutine with the operations that run during each of its sleeps; there are as many
sleeps as the timeout allows. The broker is the one in which it returns or raises. -/
def perform (env : Env) (w : Wait) : List (List Operation) → Broker → Except PyError Bool × Broker
  | [], b => (.error .waitTimeout, b)
  | slept :: rest, b =>
      match w.poll b.state with
      | .error e => (.error e, b)
      | .ok (some r) => (.ok r, b)
      | .ok none => w.perform env rest (Runs.run (Operation.step env) b slept)

/-- The awaited condition. -/
def Holds (s : State) : Wait → Prop
  | authenticationPerformedOn username =>
      ∃ u, decodeUtf8 false username = .ok u ∧ s.authenticationTriedOn.contains u = true
  | messageAcknowledged t => t ∈ s.messageAcknowledged.elems
  | messageNotAcknowledged t => t ∈ s.messageNotAcknowledged.elems
  | messageRequeued t => t ∈ s.messageRequeued.elems
  | queueBound queue exchange => s.isBound exchange queue = true

/-- The operation brings the awaited condition about. -/
def broughtBy (declared : Declared) (op : Operation) : Wait → Bool
  | authenticationPerformedOn username =>
      match op, decodeUtf8 false username with
      | .call (.checkCredentials name _), .ok u => name = u
      | _, _ => false
  | messageAcknowledged t =>
      match op with
      | .call (.messageAck tag) => tag = t
      | _ => false
  | messageNotAcknowledged t =>
      match op with
      | .call (.messageNack tag requeue) => tag = t && !requeue
      | _ => false
  | messageRequeued t =>
      match op with
      | .call (.messageNack tag requeue) => tag = t && requeue
      | _ => false
  | queueBound queue exchange => op.binds declared exchange queue

/-- After the operations, the event has come and no reset since. -/
def pending (w : Wait) (ops : List Operation) : Bool :=
  History.holds (fun before op => w.broughtBy (declaredAfter before) op) Operation.isReset ops

/-- Among the operations that follow the first ones, the event comes and no reset after it. -/
def comesIn (w : Wait) (ops slept : List Operation) : Bool :=
  History.holds (fun before op => w.broughtBy (declaredAfter (ops ++ before)) op)
    Operation.isReset slept

/-- A poll finds the event pending, or it does not come in the last sleep. Without a poll nothing
is pending. -/
def InTime (w : Wait) : List Operation → List (List Operation) → Prop
  | ops, [] => w.pending ops = false
  | ops, [slept] => w.pending ops = true ∨ w.comesIn ops slept = false
  | ops, slept :: rest => w.pending ops = true ∨ w.InTime (ops ++ slept) rest

/-- Where the wait times out, its condition does not hold. -/
def TimesOutRightly (env : Env) (w : Wait) (sleeps : List (List Operation)) (b : Broker) : Prop :=
  (w.perform env sleeps b).1 = .error .waitTimeout → ¬ w.Holds (w.perform env sleeps b).2.state

end Wait

section
variable {env : Env} {w : Wait} {b : Broker} {s : State}

/-! ## Polls -/

theorem Wait.poll_login {username : Bytes} {u : Str} (decoded : decodeUtf8 false username = .ok u) :
    (Wait.authenticationPerformedOn username).poll s = .ok (s.authenticationTriedOn.get? u) := by
  simp only [poll, decoded]
  rfl

/-- A poll reports the condition, or sleeps, or never reports anything. -/
theorem Wait.poll_cases (w : Wait) (s : State) :
    (w.Holds s ∧ ∃ r, w.poll s = .ok (some r)) ∨ (¬ w.Holds s ∧ w.poll s = .ok none) ∨
      ((∀ s, ¬ w.Holds s) ∧ ∀ s, w.poll s = .error .unicodeDecodeError) := by
  cases w with
  | authenticationPerformedOn username =>
      cases decoded : decodeUtf8 false username with
      | error e =>
          right
          right
          refine ⟨fun s => ?_, fun s => ?_⟩
          · rintro ⟨u, no, _⟩
            cases decoded.symm.trans no
          · simp only [poll, decoded]
            rw [decodeUtf8_error decoded]
            rfl
      | ok u =>
          have holds : (Wait.authenticationPerformedOn username).Holds s ↔
              s.authenticationTriedOn.contains u = true := by
            simp [Holds, decoded]
          rw [holds, poll_login decoded, State.contains_iff]
          cases tried : s.authenticationTriedOn.get? u with
          | none => exact .inr (.inl ⟨by simp, rfl⟩)
          | some r => exact .inl ⟨⟨r, rfl⟩, r, rfl⟩
  | messageAcknowledged t =>
      by_cases h : t ∈ s.messageAcknowledged.elems
      · exact .inl ⟨h, true, by simp [poll, h]⟩
      · exact .inr (.inl ⟨h, by simp [poll, h]⟩)
  | messageNotAcknowledged t =>
      by_cases h : t ∈ s.messageNotAcknowledged.elems
      · exact .inl ⟨h, true, by simp [poll, h]⟩
      · exact .inr (.inl ⟨h, by simp [poll, h]⟩)
  | messageRequeued t =>
      by_cases h : t ∈ s.messageRequeued.elems
      · exact .inl ⟨h, true, by simp [poll, h]⟩
      · exact .inr (.inl ⟨h, by simp [poll, h]⟩)
  | queueBound queue exchange =>
      have found : queue ∈ ((s.queuesBoundExchanges.get? exchange).getD .empty).elems ↔
          s.isBound exchange queue = true := by
        rw [State.isBound_iff]
        cases s.queuesBoundExchanges.get? exchange with
        | none => simp [OrderedSet.empty]
        | some set => simp
      by_cases h : s.isBound exchange queue = true
      · exact .inl ⟨h, true, by simp [poll, found, h]⟩
      · exact .inr (.inl ⟨h, by simp [poll, found, h]⟩)

variable (env) in
theorem perform_holds {sleeps : List (List Operation)} (timeout : sleeps ≠ [])
    (holds : w.Holds b.state) :
    ∃ r, w.poll b.state = .ok (some r) ∧ w.perform env sleeps b = (.ok r, b) := by
  obtain ⟨slept, rest, rfl⟩ := List.exists_cons_of_ne_nil timeout
  rcases w.poll_cases b.state with ⟨_, r, poll⟩ | ⟨no, _⟩ | ⟨no, _⟩
  · exact ⟨r, poll, by simp only [Wait.perform, poll]⟩
  · exact absurd holds no
  · exact absurd holds (no b.state)

theorem perform_sleeps (slept : List Operation) (rest : List (List Operation))
    (poll : w.poll b.state = .ok none) : w.perform env (slept :: rest) b =
      w.perform env rest (Runs.run (Operation.step env) b slept) := by
  simp only [Wait.perform, poll]

variable (env w b) in
/-- With one poll only the last sleep matters. -/
theorem timesOutRightly_last (slept : List Operation) : w.TimesOutRightly env [slept] b ↔
    w.Holds b.state ∨ ¬ w.Holds (Runs.run (Operation.step env) b slept).state := by
  rcases w.poll_cases b.state with ⟨holds, _⟩ | ⟨no, poll⟩ | ⟨never, poll⟩
  · obtain ⟨r, _, result⟩ := perform_holds env (List.cons_ne_nil slept []) holds
    simp [Wait.TimesOutRightly, result, holds]
  · rw [Wait.TimesOutRightly, perform_sleeps slept [] poll]
    simp [Wait.perform, no]
  · have failed : (w.perform env [slept] b).1 = .error .unicodeDecodeError := by
      simp only [Wait.perform, poll]
    rw [Wait.TimesOutRightly, failed]
    exact ⟨fun _ => .inr (never _), fun _ no => by cases no⟩

variable (env w b) in
theorem timesOutRightly_cons (slept : List Operation) {rest : List (List Operation)}
    (more : rest ≠ []) : w.TimesOutRightly env (slept :: rest) b ↔
      w.Holds b.state ∨ w.TimesOutRightly env rest (Runs.run (Operation.step env) b slept) := by
  rcases w.poll_cases b.state with ⟨holds, _⟩ | ⟨no, poll⟩ | ⟨never, poll⟩
  · obtain ⟨r, _, result⟩ := perform_holds env (List.cons_ne_nil slept rest) holds
    simp [Wait.TimesOutRightly, result, holds]
  · rw [Wait.TimesOutRightly, perform_sleeps slept rest poll]
    exact ⟨fun right => .inr right, fun right => right.resolve_left no⟩
  · obtain ⟨next, others, rfl⟩ := List.exists_cons_of_ne_nil more
    have failed : ∀ b slept rest,
        (w.perform env (slept :: rest) b).1 = .error .unicodeDecodeError := by
      intro b slept rest
      simp only [Wait.perform, poll]
    rw [Wait.TimesOutRightly, Wait.TimesOutRightly, failed, failed]
    refine ⟨fun _ => .inr ?_, fun _ => ?_⟩
    · intro no
      cases no
    · intro no
      cases no

/-! ## What brings the event about -/

variable (env b) in
theorem Operation.step_sameRecords {op : Operation} (noReset : op.isReset = false)
    (quiet : ∀ asked, op = .call asked → asked.records = false) :
    SameRecords b (op.step env b) := by
  cases op with
  | call asked => exact sameRecords_onState (State.sameRecords_call env (quiet asked rfl)) b
  | lost c => exact broker_sameRecords_progress.refl b
  | http asked =>
      refine sameRecords_http ?_ b
      rintro rfl
      cases noReset
  | storeMessageInQueue queueName headers data =>
      have hp := State.sameRecords_progress
      refine sameRecords_onState ?_ b
      refine within_bind hp (within_read hp _) fun _ => within_ite (within_pure hp _) ?_
      exact within_bind hp (State.sameRecords_appendToQueue queueName _) fun _ => within_pure hp _

/-- The five conditions, each by what the state records for it. -/
theorem Wait.holds_init (w : Wait) (env : Env) : ¬ w.Holds (State.init env) := by
  cases w with
  | authenticationPerformedOn username =>
      rintro ⟨u, _, tried⟩
      cases tried
  | queueBound queue exchange => simp [Holds, State.isBound, State.init]
  | _ => exact List.not_mem_nil

theorem Wait.holds_sameRecords {s s' : State} (same : State.SameRecords s s')
    (other : ∀ queue exchange, w ≠ .queueBound queue exchange) : w.Holds s' ↔ w.Holds s := by
  cases w with
  | authenticationPerformedOn username => simp only [Holds, same.tried]
  | messageAcknowledged t => exact iff_of_eq (congrArg (t ∈ ·.elems) (same.verdicts .acknowledged))
  | messageNotAcknowledged t =>
      exact iff_of_eq (congrArg (t ∈ ·.elems) (same.verdicts .notAcknowledged))
  | messageRequeued t => exact iff_of_eq (congrArg (t ∈ ·.elems) (same.verdicts .requeued))
  | queueBound queue exchange => exact absurd rfl (other queue exchange)

theorem Wait.broughtBy_quiet {declared : Declared} {op : Operation}
    (quiet : ∀ asked, op = .call asked → asked.records = false)
    (other : ∀ queue exchange, w ≠ .queueBound queue exchange) :
    w.broughtBy declared op = false := by
  cases op with
  | call asked =>
      have silent := quiet asked rfl
      cases asked with
      | checkCredentials name password => cases silent
      | messageAck tag => cases silent
      | messageNack tag requeue => cases silent
      | _ =>
          cases w with
          | queueBound queue exchange => exact absurd rfl (other queue exchange)
          | _ => rfl
  | _ =>
      cases w with
      | queueBound queue exchange => exact absurd rfl (other queue exchange)
      | _ => rfl

/-- A call that records something brings about just what it records. -/
theorem Wait.holds_records {declared : Declared} {asked : Call} (records : asked.records = true)
    (other : ∀ queue exchange, w ≠ .queueBound queue exchange) :
    w.Holds (after (asked.run env) s) ↔
      w.Holds s ∨ w.broughtBy declared (.call asked) = true := by
  cases asked with
  | checkCredentials name password =>
      cases w with
      | authenticationPerformedOn username =>
          cases decoded : decodeUtf8 false username with
          | error e => simp [Holds, broughtBy, decoded]
          | ok u =>
              have tried : (after ((Call.checkCredentials name password).run env) s
                  ).authenticationTriedOn.contains u =
                    (s.authenticationTriedOn.contains u || decide (name = u)) := by
                simp only [after, Call.run, State.checkCredentials, OrderedDict.contains,
                  OrderedDict.get?_insert]
                by_cases same : u = name
                · simp [same]
                · simp [same, Ne.symm same]
              simp [Holds, broughtBy, decoded, tried]
      | queueBound queue exchange => exact absurd rfl (other queue exchange)
      | _ => exact (or_iff_left Bool.false_ne_true).symm
  | messageAck tag =>
      cases w with
      | messageAcknowledged t =>
          simp only [Holds, broughtBy, decide_eq_true_eq]
          exact (mem_messageAck (k := .acknowledged)).trans (by simp [Verdict.recorded])
      | queueBound queue exchange => exact absurd rfl (other queue exchange)
      | _ => exact (or_iff_left Bool.false_ne_true).symm
  | messageNack tag requeue =>
      have given : ∀ (k : Verdict) (t : Int), t ∈ (k.recorded (s.messageNack tag requeue)).elems ↔ _ :=
        fun k t => mem_messageNack
      cases w with
      | messageNotAcknowledged t =>
          refine (given .notAcknowledged t).trans ?_
          cases requeue <;> simp [Holds, broughtBy, Verdict.recorded]
      | messageRequeued t =>
          refine (given .requeued t).trans ?_
          cases requeue <;> simp [Holds, broughtBy, Verdict.recorded]
      | authenticationPerformedOn username =>
          have tried : (s.messageNack tag requeue).authenticationTriedOn =
              s.authenticationTriedOn := by
            cases requeue <;> rfl
          simp [Holds, broughtBy, after, Call.run, tried]
      | messageAcknowledged t =>
          refine (given .acknowledged t).trans ?_
          cases requeue <;> simp [Holds, broughtBy, Verdict.recorded]
      | queueBound queue exchange => exact absurd rfl (other queue exchange)
  | _ => cases records

variable (env w) in
/-- An operation keeps the condition unless it resets, and brings it about as listed. -/
theorem step_holds (integral : b.state.Integral) (op : Operation) :
    w.Holds (op.step env b).state ↔
      w.Holds b.state ∧ op.isReset = false ∨ w.broughtBy b.state.declared op = true := by
  by_cases binding : ∃ queue exchange, w = .queueBound queue exchange
  · obtain ⟨queue, exchange, rfl⟩ := binding
    have effect := (op.step_effect env b integral).bound exchange queue
    simp only [Wait.Holds, Wait.broughtBy, effect, Bool.or_eq_true, Bool.and_eq_true,
      Bool.not_eq_true']
  have other : ∀ queue exchange, w ≠ .queueBound queue exchange :=
    fun queue exchange same => binding ⟨queue, exchange, same⟩
  by_cases quiet : ∀ asked, op = .call asked → asked.records = false
  · rw [Wait.broughtBy_quiet quiet other]
    cases reset : op.isReset with
    | true =>
        have fresh : (op.step env b).state = State.init env := by
          cases op with
          | http asked => cases asked <;> first | rfl | cases reset
          | _ => cases reset
        rw [fresh]
        simpa using w.holds_init env
    | false =>
        rw [Wait.holds_sameRecords (Operation.step_sameRecords env b reset quiet) other]
        simp
  · push Not at quiet
    obtain ⟨asked, rfl, records⟩ := quiet
    rw [Operation.step, after_onState]
    simpa [Operation.isReset] using Wait.holds_records (by simpa using records) other

/-! ## What is pending -/

/-- What is pending after the operations holds in the state that they lead to. -/
theorem holds_iff_pending (env : Env) (draws : Nat → Draw) (w : Wait) (ops : List Operation) :
    w.Holds (Runs.run (Operation.step env) (Broker.init env draws) ops).state ↔
      w.pending ops = true := by
  induction ops using List.reverseRecOn with
  | nil => exact iff_of_false (w.holds_init env) Bool.false_ne_true
  | append_singleton ops op ih =>
      have accounts := accounts_run env draws ops
      have declared : (Runs.run (Operation.step env) (Broker.init env draws) ops).state.declared =
          declaredAfter ops := congrArg Names.toDeclared accounts.names
      rw [Runs.run_append, Runs.run_cons, Runs.run_nil, step_holds env w accounts.integral, declared,
        ih]
      simp only [Wait.pending, History.holds_snoc, Bool.or_eq_true, Bool.and_eq_true,
        Bool.not_eq_true']

theorem Wait.pending_append (w : Wait) (ops slept : List Operation) :
    w.pending (ops ++ slept) = ((w.pending ops && !slept.any Operation.isReset) ||
      w.comesIn ops slept) :=
  History.holds_append _ _ ops slept

end

/-- Every timeout is right exactly if a poll finds the event pending or the event does not come
in the last sleep, whatever operations run before the wait and during its sleeps. -/
theorem timesOutRightly_iff (env : Env) (draws : Nat → Draw) (w : Wait) (ops : List Operation)
    (sleeps : List (List Operation)) :
    w.TimesOutRightly env sleeps (Runs.run (Operation.step env) (Broker.init env draws) ops) ↔
      w.InTime ops sleeps := by
  induction sleeps generalizing ops with
  | nil =>
      have pending := holds_iff_pending env draws w ops
      simp [Wait.TimesOutRightly, Wait.perform, Wait.InTime, pending]
  | cons slept rest ih =>
      have pending := holds_iff_pending env draws w
      cases rest with
      | nil =>
          rw [timesOutRightly_last, ← Runs.run_append, pending, pending, Wait.pending_append]
          cases found : w.pending ops <;> simp [Wait.InTime, found]
      | cons next others =>
          rw [timesOutRightly_cons _ _ _ _ (List.cons_ne_nil next others), ← Runs.run_append, ih,
            pending]
          exact Iff.rfl

/-- A delivery is acknowledged in the last second of a wait for it. -/
theorem late_acknowledgement_times_out :
    ¬ (Wait.messageAcknowledged 7).TimesOutRightly guestEnv [[], [.call (.messageAck 7)]]
      (Broker.init guestEnv fun _ => ⟨7, by decide⟩) := by
  intro right
  refine right rfl ?_
  exact List.mem_singleton.mpr rfl

/-! ## Logins -/

/-- The outcome of an attempt on a username. -/
def Operation.attempt (u : Str) (s : State) : Operation → List Bool
  | call (.checkCredentials username password) =>
      if username = u then [(s.checkCredentials username password).1] else []
  | _ => []

/-- The outcomes of the attempts on a username since the last reset, in order. -/
def attempts (env : Env) (draws : Nat → Draw) (u : Str) (ops : List Operation) : List Bool :=
  History.kept (fun before op =>
      op.attempt u (Runs.run (Operation.step env) (Broker.init env draws) before).state)
    Operation.isReset ops

/-- A wait that starts after the operations reports a login once an attempt was accepted, and
only if one was by the time it returns. -/
structure RemembersLogins (env : Env) (draws : Nat → Draw) (username : Bytes)
    (ops : List Operation) (sleeps : List (List Operation)) : Prop where
  remembered : ∀ u, decodeUtf8 false username = .ok u → true ∈ attempts env draws u ops →
    ((Wait.authenticationPerformedOn username).perform env sleeps
      (Runs.run (Operation.step env) (Broker.init env draws) ops)).1 = .ok true
  accepted : ∀ b, (Wait.authenticationPerformedOn username).perform env sleeps
      (Runs.run (Operation.step env) (Broker.init env draws) ops) = (.ok true, b) →
    ∃ u past, decodeUtf8 false username = .ok u ∧ past <+: sleeps ∧
      b = Runs.run (Operation.step env) (Broker.init env draws) (ops ++ past.flatten) ∧
      true ∈ attempts env draws u (ops ++ past.flatten)

section
variable {env : Env} {draws : Nat → Draw} {u : Str} {username : Bytes}

variable (env) in
/-- Only an attempt on the username and a reset change what is recorded for it. -/
theorem step_tried (b : Broker) (op : Operation) :
    (op.step env b).state.authenticationTriedOn.get? u = (op.attempt u b.state).getLast?.or
      (if op.isReset then none else b.state.authenticationTriedOn.get? u) := by
  by_cases quiet : ∀ asked, op = .call asked → asked.records = false
  · have none : op.attempt u b.state = [] := by
      cases op with
      | call asked =>
          cases asked with
          | checkCredentials name password => cases quiet _ rfl
          | _ => rfl
      | _ => rfl
    rw [none]
    cases reset : op.isReset with
    | true =>
        cases op with
        | http asked => cases asked <;> first | rfl | cases reset
        | _ => cases reset
    | false =>
        rw [(Operation.step_sameRecords env b reset quiet).tried]
        rfl
  · push Not at quiet
    obtain ⟨asked, rfl, records⟩ := quiet
    rw [Operation.step, after_onState]
    cases asked with
    | checkCredentials name password =>
        simp only [Operation.attempt, Operation.isReset, after, Call.run, State.checkCredentials,
          OrderedDict.get?_insert]
        by_cases same : u = name
        · simp [same]
        · simp [same, Ne.symm same]
    | messageAck tag => rfl
    | messageNack tag requeue => cases requeue <;> rfl
    | _ => exact absurd rfl records

/-- The state records the outcome of the last attempt. -/
theorem tried_run (ops : List Operation) :
    (Runs.run (Operation.step env) (Broker.init env draws) ops).state.authenticationTriedOn.get? u =
      (attempts env draws u ops).getLast? := by
  induction ops using List.reverseRecOn with
  | nil => rfl
  | append_singleton ops op ih =>
      have snoc : attempts env draws u (ops ++ [op]) =
          (if op.isReset then [] else attempts env draws u ops) ++
            op.attempt u (Runs.run (Operation.step env) (Broker.init env draws) ops).state :=
        History.kept_snoc _ _ _ _
      rw [Runs.run_append, Runs.run_cons, Runs.run_nil, step_tried, ih, snoc, List.getLast?_append]
      cases op.isReset <;> rfl

/-- The first poll reports the last attempt, if there was one. -/
theorem perform_login (decoded : decodeUtf8 false username = .ok u) (ops slept : List Operation)
    (rest : List (List Operation)) :
    (Wait.authenticationPerformedOn username).perform env (slept :: rest)
        (Runs.run (Operation.step env) (Broker.init env draws) ops) =
      match (attempts env draws u ops).getLast? with
      | some r => (.ok r, Runs.run (Operation.step env) (Broker.init env draws) ops)
      | none => (Wait.authenticationPerformedOn username).perform env rest
          (Runs.run (Operation.step env) (Broker.init env draws) (ops ++ slept)) := by
  rw [Wait.perform, Wait.poll_login decoded, tried_run, Runs.run_append]
  cases (attempts env draws u ops).getLast? <;> rfl

/-- A login that the wait reports was accepted, by induction on the sleeps. -/
theorem performed_accepted {sleeps : List (List Operation)} {ops : List Operation} {b : Broker}
    (reported : (Wait.authenticationPerformedOn username).perform env sleeps
      (Runs.run (Operation.step env) (Broker.init env draws) ops) = (.ok true, b)) :
    ∃ u past, decodeUtf8 false username = .ok u ∧ past <+: sleeps ∧
      b = Runs.run (Operation.step env) (Broker.init env draws) (ops ++ past.flatten) ∧
      true ∈ attempts env draws u (ops ++ past.flatten) := by
  induction sleeps generalizing ops with
  | nil => cases reported
  | cons slept rest ih =>
      cases decoded : decodeUtf8 false username with
      | error e => simp [Wait.perform, Wait.poll, decoded] at reported
      | ok u =>
          rw [perform_login decoded] at reported
          cases last : (attempts env draws u ops).getLast? with
          | some r =>
              simp only [last, Prod.mk.injEq, Except.ok.injEq] at reported
              obtain ⟨rfl, rfl⟩ := reported
              exact ⟨u, [], rfl, List.nil_prefix, by simp, by simpa using List.mem_of_getLast? last⟩
          | none =>
              simp only [last] at reported
              obtain ⟨u', past, decoded', begins, same, accepted⟩ := ih reported
              cases decoded.symm.trans decoded'
              refine ⟨u, slept :: past, rfl, (List.prefix_cons_inj slept).mpr begins, ?_, ?_⟩
              · rw [same, List.flatten_cons, List.append_assoc]
              · rwa [List.flatten_cons, ← List.append_assoc]

end

/-- A login is remembered exactly if no later attempt on the username was refused. -/
theorem remembersLogins_iff (env : Env) (draws : Nat → Draw) (username : Bytes)
    (ops : List Operation) (sleeps : List (List Operation)) :
    RemembersLogins env draws username ops sleeps ↔
      ∀ u, decodeUtf8 false username = .ok u → true ∈ attempts env draws u ops →
        (attempts env draws u ops).getLast? = some true ∧ sleeps ≠ [] := by
  constructor
  · intro remembers u decoded accepted
    have reported := remembers.remembered u decoded accepted
    cases sleeps with
    | nil => cases reported
    | cons slept rest =>
        obtain ⟨r, last⟩ := Option.ne_none_iff_exists'.mp
          (mt List.getLast?_eq_none_iff.mp (List.ne_nil_of_mem accepted))
        rw [perform_login decoded, last] at reported
        rw [last, Except.ok.inj reported]
        exact ⟨rfl, List.cons_ne_nil slept rest⟩
  · intro lasting
    refine ⟨fun u decoded accepted => ?_, fun b reported => performed_accepted reported⟩
    obtain ⟨last, timeout⟩ := lasting u decoded accepted
    obtain ⟨slept, rest, rfl⟩ := List.exists_cons_of_ne_nil timeout
    rw [perform_login decoded, last]

/-- A mistyped password after a login makes the wait report a refusal. -/
theorem forgotten_login :
    ¬ RemembersLogins guestEnv (fun _ => ⟨7, by decide⟩) (ascii "guest")
      [.call (.checkCredentials (str "guest") (str "guest")),
        .call (.checkCredentials (str "guest") (str "guess"))] [[]] := by
  intro remembers
  have decoded : decodeUtf8 false (ascii "guest") = .ok (str "guest") := by rfl
  have reported := remembers.remembered _ decoded (by decide +kernel)
  rw [perform_login decoded] at reported
  have last : (attempts guestEnv (fun _ => ⟨7, by decide⟩) (str "guest")
      [.call (.checkCredentials (str "guest") (str "guest")),
        .call (.checkCredentials (str "guest") (str "guess"))]).getLast? = some false := by
    decide +kernel
  rw [last] at reported
  cases reported

end MockAmqp
