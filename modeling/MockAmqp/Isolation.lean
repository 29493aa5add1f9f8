import MockAmqp.Oblivious

/-!
# Tests apart

What new connections and requests see after a reset is what they would see on a server just
started.
-/

namespace MockAmqp
open Exec

/-- A broker that has been reset beside one just started, looked at from some of the connections. -/
def restarted (knows : ConnId → Prop) (past : List Event) : Likeness Event where
  state := fun s s' => s = s' ∧ s.ServesOnly knows
  draw := Eq
  sees := some
  knows := knows
  past := past

section
variable {knows : ConnId → Prop} {s : Server}

theorem congruent_restarted (env : Env) (knows : ConnId → Prop) (past : List Event) :
    Congruent (restarted knows past) env env :=
  congruent_same env (fun _ _ => Iff.rfl) fun p d d' (same : d = d') => by rw [same]

theorem reset_restarted (env : Env) (fresh : ∀ c, knows c → s.Fresh c) :
    AlikeServers (restarted knows s.broker.trace) (Server.step env s (.http .reset))
      (Server.init env s.broker.draws) where
  broker :=
    { state := ⟨rfl, fun _ _ member => by cases member⟩
      draws := fun _ => rfl
      parser := fun c known => congrArg Tracker.parserState (fresh c known).tracker
      channels := fun c known => congrArg Tracker.channels (fresh c known).tracker
      closing := fun c known => congrArg (fun t : Tracker => t.transport.closing)
        (fresh c known).tracker
      trace := by
        show s.broker.trace.filterMap some = s.broker.trace ++ []
        rw [List.filterMap_some, List.append_nil] }
  buffers := fun c known => (fresh c known).buffer

end

theorem tracker_eq {t t' : Tracker} (parser : t.parserState = t'.parserState)
    (channels : t.channels = t'.channels) (closing : t.transport.closing = t'.transport.closing)
    (written : t.transport.written = t'.transport.written) : t = t' := by
  obtain ⟨⟨bytes, closed⟩, state, opened⟩ := t
  obtain ⟨⟨bytes', closed'⟩, state', opened'⟩ := t'
  cases parser
  cases channels
  cases closing
  cases written
  rfl

/-- The server `r`, reset after `s`, goes on as the server `t`, started afresh, for everything that
was new at the reset. -/
structure Restarts (s r t : Server) : Prop where
  state : r.broker.state = t.broker.state
  trace : r.broker.trace = s.broker.trace ++ t.broker.trace
  trackers : ∀ c, s.Fresh c → r.broker.trackers c = t.broker.trackers c
  buffers : ∀ c, s.Fresh c → r.buffers c = t.buffers c

/-- A reset separates what comes after it from what came before: if only new connections send
anything, states, events, and the new connections with all that is written to them are those of a
server just started that draws the same tags. -/
theorem reset_restarts (env : Env) (draws : Nat → Draw) (before later : List Action)
    (fresh : ∀ a ∈ later, ∀ c, a.conn = some c →
      (Runs.run (Server.step env) (Server.init env draws) before).Fresh c) :
    Restarts (Runs.run (Server.step env) (Server.init env draws) before)
      (Runs.run (Server.step env) (Server.init env draws) (before ++ .http .reset :: later))
      (Runs.run (Server.step env) (Server.init env
        (Runs.run (Server.step env) (Server.init env draws) before).broker.draws) later) := by
  have recorded := run_written env draws before
  have recorded' := run_written env draws (before ++ .http .reset :: later)
  revert fresh recorded recorded'
  rw [Runs.run_append, Runs.run_cons]
  generalize Runs.run (Server.step env) (Server.init env draws) before = s
  intro fresh recorded recorded'
  have one : ∀ r t a, (∀ c, a.conn = some c → s.Fresh c) →
      AlikeServers (restarted s.Fresh s.broker.trace) r t →
        AlikeServers (restarted s.Fresh s.broker.trace) (Server.step env r a)
          (Server.step env t a) :=
    fun r t a known h => step_alike (congruent_restarted env s.Fresh _) h known
  have ended := Runs.related_on one (reset_restarted env fun _ known => known) fresh
  have written := run_written env s.broker.draws later
  revert ended recorded' written
  generalize Runs.run (Server.step env) (Server.step env s (.http .reset)) later = r
  generalize Runs.run (Server.step env) (Server.init env s.broker.draws) later = t
  intro recorded' ended written
  have trace : r.broker.trace = s.broker.trace ++ t.broker.trace := by
    simpa [restarted] using ended.broker.trace
  refine ⟨ended.broker.state.1, trace, fun c new => ?_, fun c new => ended.buffers c new⟩
  have nothing : s.broker.trace.flatMap (Event.bytesTo c) = [] := by
    rw [← recorded c, new.tracker]
    rfl
  have transport : (r.broker.trackers c).transport.written =
      (t.broker.trackers c).transport.written := by
    rw [recorded' c, written c, trace, List.flatMap_append, nothing, List.nil_append]
  exact tracker_eq (ended.broker.parser c new) (ended.broker.channels c new)
    (ended.broker.closing c new) transport

theorem eq_empty {κ ν : Type} [DecidableEq κ] {d : OrderedDict κ ν} (none : d.entries = []) :
    d = .empty := by
  obtain ⟨entries, distinct⟩ := d
  cases none
  rfl

/-- A consumer of an earlier connection is forgotten, and a new connection logs in as ever. -/
theorem consumer_forgotten :
    Restarts (session oneConsumer) (session (oneConsumer ++ .http .reset :: logIn 1))
      (Runs.run (Server.step guestEnv) (Server.init guestEnv (session oneConsumer).broker.draws)
        (logIn 1)) := by
  have new : (session oneConsumer).Fresh 1 := by
    have parts : ((session oneConsumer).broker.trackers 1).parserState = .waitingProtocolHeader ∧
        ((session oneConsumer).broker.trackers 1).channels.entries.isEmpty = true ∧
        ((session oneConsumer).broker.trackers 1).transport =
          { written := [], closing := false } ∧
        (session oneConsumer).buffers 1 = [] := by decide +kernel
    obtain ⟨parser, channels, transport, buffer⟩ := parts
    have none : ((session oneConsumer).broker.trackers 1).channels = .empty :=
      eq_empty (List.isEmpty_iff.mp channels)
    exact ⟨tracker_eq parser none (congrArg Transport.closing transport)
      (congrArg Transport.written transport), buffer⟩
  have only : ∀ a ∈ logIn 1, a.conn = some 1 := by
    intro a member
    simp only [logIn, List.mem_cons, List.not_mem_nil, or_false] at member
    rcases member with rfl | rfl | rfl | rfl | rfl <;> rfl
  revert new only
  generalize logIn 1 = later
  intro new only
  unfold session at new ⊢
  refine reset_restarts guestEnv _ oneConsumer later fun a member c sends => ?_
  have same := (only a member).symm.trans sends
  cases same
  exact new

end MockAmqp
