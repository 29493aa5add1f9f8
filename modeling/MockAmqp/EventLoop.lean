import MockAmqp.Handlers
import MockAmqp.Lib.Runs

/-!
# The event loop

Each turn of the loop takes one event off what h11 has found, until there is nothing left or h11
pauses. When h11 pauses nothing in the loop lets it go on.
-/

namespace MockAmqp
namespace Http
open Exec

/-- Bytes of a following request are buffered behind one that has been read. -/
def Connection.blocked (p : Connection) : Bool := p.readAll && p.following

/-- An event leaves the parser. -/
def takeEvent (e : H11Event) (rest : List H11Event) : OnHttp Unit :=
  match e with
  | .malformed x => raise x
  | _ => updateProtocol fun h => { h with httpParser := { h.httpParser with
      pending := rest, readAll := h.httpParser.readAll || e.isEnd } }

/-- Events are taken and treated in order, until the parser is blocked. -/
def treatPending (env : Env) : List H11Event → OnHttp Unit
  | [] => pure ()
  | e :: rest => do
      if (← read fun s : HttpProtocol × Broker => s.1.httpParser.blocked) then return
      else
        takeEvent e rest
        treatEvent env e
        treatPending env rest

/-- The end of the loop when nothing more can be taken: it is left, h11 refuses to go on, or
it pauses for ever. -/
def comeToRest (refuses : Option PyError) : OnHttp Bool := do
  let p ← read fun s : HttpProtocol × Broker => s.1.httpParser
  if p.blocked then
    match refuses with
    | some e => if p.responded then raise e else return false
    | none => return false
  else return true

section
variable {env : Env} {refuses : Option PyError} {s s' : HttpProtocol × Broker}

theorem nextEvent_blocked (h : s.1.httpParser.blocked = true) :
    nextEvent refuses s = match refuses with
      | some e => if s.1.httpParser.responded then .error e s else .ok .paused s
      | none => .ok .paused s := by
  unfold nextEvent
  exact if_pos h

theorem comeToRest_free (h : s.1.httpParser.blocked = false) :
    comeToRest refuses s = .ok true s := by
  simp only [comeToRest, bind_apply, read_apply, h]
  rfl

theorem comeToRest_blocked (h : s.1.httpParser.blocked = true) :
    comeToRest refuses s = match refuses with
      | some e => if s.1.httpParser.responded then .error e s else .ok false s
      | none => .ok false s := by
  simp only [comeToRest, bind_apply, read_apply, h, if_true]
  cases refuses with
  | none => rfl
  | some e =>
      simp only [Exec.ite_apply]
      rfl

/-- A blocked parser stays as it is for any number of turns. -/
theorem eventLoop_blocked (h : s.1.httpParser.blocked = true) (n : Nat) :
    eventLoop env refuses (n + 1) s = comeToRest refuses s := by
  rw [comeToRest_blocked h]
  induction n with
  | zero =>
      simp only [eventLoop, bind_apply, nextEvent_blocked h]
      cases refuses with
      | none => rfl
      | some e => cases s.1.httpParser.responded <;> rfl
  | succ n ih =>
      rw [eventLoop, bind_apply, nextEvent_blocked h]
      cases refuses with
      | none => exact ih
      | some e =>
          cases answered : s.1.httpParser.responded with
          | false =>
              rw [answered] at ih
              exact ih
          | true => rfl

theorem nextEvent_free (h : s.1.httpParser.blocked = false) (e : H11Event)
    (rest : List H11Event) (pending : s.1.httpParser.pending = e :: rest) :
    nextEvent refuses s = (takeEvent e rest >>= fun _ => pure (.event e)) s := by
  unfold nextEvent
  rw [if_neg (show ¬ (s.1.httpParser.readAll && s.1.httpParser.following) = true by
    rw [show (s.1.httpParser.readAll && s.1.httpParser.following) = false from h]
    simp), pending]
  cases e <;> rfl

theorem nextEvent_empty (h : s.1.httpParser.blocked = false) (pending : s.1.httpParser.pending = []) :
    nextEvent refuses s = .ok .needData s := by
  have free : (s.1.httpParser.readAll && s.1.httpParser.following) = false := h
  unfold nextEvent
  simp only [free, pending]
  rfl

theorem takeEvent_pending {e : H11Event} {rest : List H11Event} (h : takeEvent e rest s = .ok () s') :
    s'.1.httpParser.pending = rest := by
  cases e <;> cases h <;> rfl

theorem treatPending_blocked (h : s.1.httpParser.blocked = true) (l : List H11Event) :
    treatPending env l s = .ok () s := by
  cases l with
  | nil => rfl
  | cons e rest =>
      simp only [treatPending, bind_apply, read_apply, h, if_true]
      rfl

theorem treatPending_free (h : s.1.httpParser.blocked = false) (e : H11Event)
    (rest : List H11Event) : treatPending env (e :: rest) s =
      (takeEvent e rest >>= fun _ => treatEvent env e >>= fun _ => treatPending env rest) s := by
  simp only [treatPending, bind_apply, read_apply, h, Bool.false_eq_true, if_false]

/-- A loop that may take more turns than there are events treats the events and comes to
rest. -/
theorem eventLoop_eq {n : Nat} (enough : s.1.httpParser.pending.length < n) :
    eventLoop env refuses n s =
      (treatPending env s.1.httpParser.pending >>= fun _ => comeToRest refuses) s := by
  induction n generalizing s with
  | zero => omega
  | succ n ih =>
      cases pending : s.1.httpParser.pending with
      | nil =>
          cases blocked : s.1.httpParser.blocked with
          | true => exact eventLoop_blocked blocked n
          | false =>
              rw [eventLoop, bind_ok (nextEvent_empty blocked pending)]
              exact (comeToRest_free blocked).symm
      | cons e rest =>
          rw [pending, List.length_cons] at enough
          cases blocked : s.1.httpParser.blocked with
          | true =>
              rw [eventLoop_blocked blocked, bind_ok (treatPending_blocked blocked (e :: rest))]
          | false =>
              have taken : (treatPending env (e :: rest) >>= fun _ => comeToRest refuses) s =
                  (takeEvent e rest >>= fun _ => treatEvent env e >>= fun _ =>
                    treatPending env rest >>= fun _ => comeToRest refuses) s := by
                rw [bind_apply, treatPending_free blocked, bind_apply, bind_apply]
                cases takeEvent e rest s with
                | error x t => rfl
                | ok u t =>
                    dsimp only
                    rw [bind_apply, bind_apply]
                    cases treatEvent env e t <;> rfl
              rw [taken, eventLoop, bind_apply, nextEvent_free blocked e rest pending]
              cases takes : takeEvent e rest s with
              | error x t => simp only [bind_apply, takes]
              | ok u t =>
                  simp only [bind_apply, takes, pure_apply]
                  cases treats : treatEvent env e t with
                  | error x t' => rfl
                  | ok u' t' =>
                      have handled := treatEvent_handled env e t
                      rw [after_ok treats] at handled
                      have left : t'.1.httpParser.pending = rest :=
                        handled.pending.trans (takeEvent_pending takes)
                      have loop := ih (s := t') (by rw [left]; omega)
                      rw [left] at loop
                      exact loop

/-- A loop that has ended would have ended alike with more turns allowed. -/
theorem eventLoop_more {n : Nat} (ended : ∀ t, eventLoop env refuses n s ≠ .ok false t) :
    eventLoop env refuses (n + 1) s = eventLoop env refuses n s := by
  induction n generalizing s with
  | zero => exact absurd rfl (ended s)
  | succ n ih =>
      rw [eventLoop, bind_apply] at ended
      rw [eventLoop, bind_apply, eventLoop, bind_apply]
      cases next : nextEvent refuses s with
      | error e t => rfl
      | ok event t =>
          rw [next] at ended
          cases event with
          | needData => rfl
          | paused => exact ih ended
          | event e =>
              dsimp only at ended ⊢
              rw [bind_apply] at ended
              rw [bind_apply, bind_apply]
              cases treats : treatEvent env e t with
              | error x t' => rfl
              | ok u t' =>
                  rw [treats] at ended
                  exact ih ended

theorem eventLoop_enough {n m : Nat} (ended : ∀ t, eventLoop env refuses n s ≠ .ok false t) :
    eventLoop env refuses (n + m) s = eventLoop env refuses n s := by
  induction m with
  | zero => rfl
  | succ m ih =>
      have still : ∀ t, eventLoop env refuses (n + m) s ≠ .ok false t := by rwa [ih]
      exact (eventLoop_more still).trans ih

/-- What taking and treating the events makes of the parser. -/
theorem treatPending_ok {l : List H11Event} (treated : treatPending env l s = .ok () s') :
    s'.1.httpParser.following = s.1.httpParser.following ∧
      (s.1.httpParser.following = true → s'.1.httpParser.readAll =
        (s.1.httpParser.readAll || l.any H11Event.isEnd)) := by
  induction l generalizing s with
  | nil =>
      cases treated
      exact ⟨rfl, fun _ => by simp⟩
  | cons e rest ih =>
      cases blocked : s.1.httpParser.blocked with
      | true =>
          rw [treatPending_blocked blocked] at treated
          cases treated
          have both := Bool.and_eq_true_iff.mp blocked
          exact ⟨rfl, fun _ => by simp [both.1]⟩
      | false =>
          rw [treatPending_free blocked, bind_apply] at treated
          cases takes : takeEvent e rest s with
          | error x t =>
              rw [takes] at treated
              cases treated
          | ok u t =>
              rw [takes] at treated
              dsimp only at treated
              rw [bind_apply] at treated
              cases treats : treatEvent env e t with
              | error x t' =>
                  rw [treats] at treated
                  cases treated
              | ok u' t' =>
                  rw [treats] at treated
                  have handled := treatEvent_handled env e t
                  rw [after_ok treats] at handled
                  obtain ⟨following, readAll⟩ := ih treated
                  have parser : t.1.httpParser.following = s.1.httpParser.following ∧
                      t.1.httpParser.readAll = (s.1.httpParser.readAll || e.isEnd) := by
                    cases e <;> cases takes <;> exact ⟨rfl, rfl⟩
                  have kept := handled.following.trans parser.1
                  refine ⟨following.trans kept, fun more => ?_⟩
                  rw [readAll (kept.trans more), handled.readAll, parser.2, List.any_cons,
                    Bool.or_assoc]

end

/-! ## When the loop ends -/

/-- The protocol with a chunk of bytes handed to the parser. -/
def received (chunk : Chunk) (s : HttpProtocol × Broker) : HttpProtocol × Broker :=
  ({ s.1 with httpParser := { s.1.httpParser with
      pending := s.1.httpParser.pending ++ chunk.events
      following := s.1.httpParser.following || chunk.following } }, s.2)

/-- The loop over the events of h11 ends after finitely many turns. -/
def LoopEnds (env : Env) (refuses : Option PyError) (s : HttpProtocol × Broker) : Action → Prop
  | .dataReceived chunk => s.1.closing = false →
      ∃ n, ∀ s', dataReceivedWithin env refuses n chunk s ≠ .ok false s'
  | .getDone _ => True

/-- The request has been received to its end, and bytes of a following one with it. -/
def pipelines (h : HttpProtocol) (chunk : Chunk) : Bool :=
  (h.httpParser.following || chunk.following) &&
    (h.httpParser.readAll || (h.httpParser.pending ++ chunk.events).any H11Event.isEnd)

/-- A request with bytes of a following one behind it is treated without an exception, and
there is no response yet that would make h11 refuse those bytes. -/
def Stalls (env : Env) (refuses : Option PyError) (s : HttpProtocol × Broker) : Action → Prop
  | .dataReceived chunk => s.1.closing = false ∧ pipelines s.1 chunk = true ∧
      ∃ s', treatPending env (s.1.httpParser.pending ++ chunk.events) (received chunk s) =
        .ok () s' ∧ (refuses = none ∨ s'.1.httpParser.responded = false)
  | .getDone _ => False

section
variable {env : Env} {refuses : Option PyError} {s : HttpProtocol × Broker}

theorem dataReceivedWithin_eq (n : Nat) (chunk : Chunk) :
    dataReceivedWithin env refuses n chunk s = eventLoop env refuses n (received chunk s) := rfl

/-- The loop comes to rest in the one way that never ends it. -/
theorem comeToRest_false {s' : HttpProtocol × Broker} {t : HttpProtocol × Broker} :
    comeToRest refuses s' = .ok false t ↔ t = s' ∧ s'.1.httpParser.blocked = true ∧
      (refuses = none ∨ s'.1.httpParser.responded = false) := by
  cases blocked : s'.1.httpParser.blocked with
  | false =>
      rw [comeToRest_free blocked]
      simp
  | true =>
      rw [comeToRest_blocked blocked]
      have rests : (EStateM.Result.ok false s' : EStateM.Result PyError _ Bool) = .ok false t ↔
          t = s' := by
        constructor
        · intro same
          cases same
          rfl
        · intro same
          rw [same]
      cases refuses with
      | none => exact rests.trans (by simp)
      | some e =>
          cases s'.1.httpParser.responded with
          | false => exact rests.trans (by simp)
          | true => simp

/-- A call of `_data_received` ends exactly if it does not stall. -/
theorem loopEnds_iff (a : Action) : LoopEnds env refuses s a ↔ ¬ Stalls env refuses s a := by
  cases a with
  | getDone r => exact iff_of_true trivial id
  | dataReceived chunk =>
      by_cases opened : s.1.closing = false
      · let s0 := received chunk s
        let l := s.1.httpParser.pending ++ chunk.events
        have loop : ∀ {n}, l.length < n → eventLoop env refuses n s0 =
            (treatPending env l >>= fun _ => comeToRest refuses) s0 := fun enough =>
          eventLoop_eq (s := s0) enough
        have stalls : (∃ t, (treatPending env l >>= fun _ => comeToRest refuses) s0 =
            .ok false t) ↔ Stalls env refuses s (.dataReceived chunk) := by
          have reads : ∀ {s'}, treatPending env l s0 = .ok () s' →
              (s'.1.httpParser.blocked = true ↔ pipelines s.1 chunk = true) := by
            intro s' treated
            obtain ⟨following, readAll⟩ := treatPending_ok treated
            unfold Connection.blocked pipelines
            rw [following, Bool.and_eq_true, Bool.and_eq_true]
            constructor
            · intro both
              rw [readAll both.2] at both
              exact both.symm
            · intro both
              rw [readAll both.1]
              exact both.symm
          constructor
          · rintro ⟨t, runs⟩
            rw [bind_apply] at runs
            cases treated : treatPending env l s0 with
            | error e s' =>
                rw [treated] at runs
                cases runs
            | ok u s' =>
                rw [treated] at runs
                obtain ⟨_, blocked, unanswered⟩ := comeToRest_false.mp runs
                exact ⟨opened, (reads treated).mp blocked, s', treated, unanswered⟩
          · rintro ⟨_, more, s', treated, unanswered⟩
            refine ⟨s', ?_⟩
            rw [bind_ok treated]
            exact comeToRest_false.mpr ⟨rfl, (reads treated).mpr more, unanswered⟩
        rw [← stalls]
        constructor
        · intro ends
          obtain ⟨n, ended⟩ := ends opened
          rintro ⟨t, runs⟩
          have more : eventLoop env refuses (n + (l.length + 1)) s0 = eventLoop env refuses n s0 :=
            eventLoop_enough ended
          rw [loop (by omega), runs] at more
          exact ended t more.symm
        · intro free _
          refine ⟨l.length + 1, fun t runs => free ⟨t, ?_⟩⟩
          rw [← loop (Nat.lt_succ_self _)]
          exact runs
      · exact iff_of_true (fun no => absurd no opened) fun stalls => opened stalls.1

end

end Http
end MockAmqp
