import MockAmqp.Raising

/-!
# When the event loop ends

Behind a request that has been read to its end h11 pauses while bytes of another one are there,
and a call of `_data_received` that gets so far never ends. Which calls do is a matter of the
request, of what has been answered, and of the bytes that have come.
-/

namespace MockAmqp
namespace Http
open Exec

/-- The events of a request as far as they have come, the last one perhaps unreadable. -/
inductive Begins : List H11Event → List H11Event → Prop
  | cut (events : List H11Event) : Begins events []
  | malformed (events : List H11Event) (x : PyError) : Begins events [.malformed x]
  | event (e : H11Event) {events left : List H11Event} : Begins events left →
      Begins (e :: events) (e :: left)

/-- The pieces of a body among some events. -/
def bodyOf (l : List H11Event) : List Bytes :=
  l.filterMap fun
    | .data piece => some piece
    | _ => none

/-- Nothing that is read of the request answers it. -/
def Unanswered (method target : Bytes) (pieces : List Bytes) : Prop :=
  method = ascii "GET" ∧ (∃ w, waitOf target = .ok (some w)) ∨ ¬ Answered method pieces

/-- What the headers ask for can be done. -/
structure Askable (s : State) (method target : Bytes) : Prop where
  get : method = ascii "GET" → Gettable s target
  delete : method = ascii "DELETE" → Deletable target

/-- The request goes through as far as it has come: what its headers ask for can be done, and of
a body that is posted there is one piece at most, which can be posted and is the first. -/
structure GoesThrough (env : Env) (method target : Bytes) (headers : Headers)
    (s : HttpProtocol × Broker) (l : List H11Event) : Prop where
  asked : .request method target headers ∈ l → Askable s.2.state method target
  body : WithBody method → bodyOf l = [] ∨ s.1.httpParser.responded = false ∧
    ∃ piece, bodyOf l = [piece] ∧ (method = ascii "POST" → Postable env s.2 target headers piece)

/-- Bytes of another request have come with the end of this one, and h11 has no response to
refuse them for: nothing answers the request, or, where h11 never refuses, it goes through. -/
def Freezes (env : Env) (refuses : Option PyError) (method target : Bytes) (headers : Headers)
    (pieces : List Bytes) (s : HttpProtocol × Broker) : Action → Prop
  | .dataReceived chunk => s.1.closing = false ∧ pipelines s.1 chunk = true ∧
      match refuses with
      | some _ => s.1.httpParser.responded = false ∧ Unanswered method target pieces
      | none => GoesThrough env method target headers s (s.1.httpParser.pending ++ chunk.events)
  | .getDone _ => False

/-- How far a request has come: none of it has been treated, or its headers and some of a body
that is posted, or of one that is not, or all of it. -/
inductive Reading (method target : Bytes) (headers : Headers) (pieces : List Bytes) :
    List H11Event → HttpProtocol → Prop
  | ahead {left : List H11Event} {h : HttpProtocol} :
      Begins (whole method target headers pieces) left → h.state = .waitingHeaders →
      h.httpParser.readAll = false → h.httpParser.responded = false → h.futures = [] →
      Reading method target headers pieces left h
  | posted {left : List H11Event} {h : HttpProtocol} (later : List Bytes) : WithBody method →
      Begins (later.map .data ++ [.endOfMessage]) left → h.state = .waitingBody →
      h.method = some method → h.target = some target → h.headers = some headers →
      h.httpParser.readAll = false → h.httpParser.responded = true ∨ later = pieces →
      Reading method target headers pieces left h
  | ignored {left : List H11Event} {h : HttpProtocol} (later : List Bytes) : ¬ WithBody method →
      Begins (later.map .data ++ [.endOfMessage]) left → h.state = .waitingHeaders →
      h.httpParser.readAll = false →
      h.httpParser.responded = true ∨ Unanswered method target pieces →
      Reading method target headers pieces left h
  | ended {left : List H11Event} {h : HttpProtocol} : Begins [] left →
      h.httpParser.readAll = true →
      h.httpParser.responded = true ∨ Unanswered method target pieces →
      Reading method target headers pieces left h

section
variable {env : Env} {refuses : Option PyError} {s t : HttpProtocol × Broker}
variable {method target : Bytes} {headers : Headers} {pieces : List Bytes}

/-! ## Treating the headers -/

theorem withBody_not_atOnce (body : WithBody method) : ¬ AtOnce method := by
  unfold AtOnce
  rcases body with rfl | rfl <;> decide

theorem Unanswered.askable {s : State} (unanswered : Unanswered method target pieces) :
    Askable s method target := by
  rcases unanswered with ⟨rfl, w, waits⟩ | none
  · exact ⟨fun _ => waits_gettable waits, fun no => absurd no (by decide)⟩
  · refine ⟨fun get => absurd (.inl (.inr (.inl get))) none, fun delete => ?_⟩
    exact absurd (.inl (.inr (.inr delete))) none

theorem unanswered_withBody (body : WithBody method) :
    Unanswered method target pieces ↔ pieces = [] := by
  constructor
  · rintro (⟨rfl, _⟩ | none)
    · exact absurd (.inr (.inl rfl)) (withBody_not_atOnce body)
    · exact of_not_not fun nonempty => none (.inr ⟨body, nonempty⟩)
  · rintro rfl
    refine .inr ?_
    rintro (now | ⟨_, nonempty⟩)
    · exact withBody_not_atOnce body now
    · exact nonempty rfl

theorem unanswered_atOnce (now : AtOnce method) : Unanswered method target pieces ↔
    method = ascii "GET" ∧ ∃ w, waitOf target = .ok (some w) :=
  or_iff_left fun none => none (.inl now)

/-- How the headers of a request are treated: something raises, the body is awaited, or the
request is answered now or not. -/
inductive Headed (method target : Bytes) (headers : Headers) (pieces : List Bytes)
    (s : HttpProtocol × Broker) : EStateM.Result PyError (HttpProtocol × Broker) Unit → Prop
  | raised (e : PyError) {t : HttpProtocol × Broker} : ¬ Askable s.2.state method target →
      t.1.httpParser.responded = false → Headed method target headers pieces s (.error e t)
  | awaits : WithBody method → Headed method target headers pieces s (.ok () ({ s.1 with
      method := some method, target := some target, headers := some headers
      state := .waitingBody }, s.2))
  | answered {t : HttpProtocol × Broker} : ¬ WithBody method → Askable s.2.state method target →
      ¬ Unanswered method target pieces → t.1.state = .waitingHeaders →
      t.1.httpParser.responded = true → Headed method target headers pieces s (.ok () t)
  | unanswered {t : HttpProtocol × Broker} : ¬ WithBody method →
      Unanswered method target pieces → t.1.state = .waitingHeaders →
      t.1.httpParser.responded = false → Headed method target headers pieces s (.ok () t)

variable (env method target headers pieces) in
theorem request_headed (waiting : s.1.state = .waitingHeaders)
    (silent : s.1.httpParser.responded = false) :
    Headed method target headers pieces s (treatEvent env (.request method target headers) s) := by
  let s' : HttpProtocol × Broker :=
    ({ s.1 with method := some method, target := some target, headers := some headers }, s.2)
  have silent' : s'.1.httpParser.responded = false := silent
  by_cases body : WithBody method
  · rw [treatEvent_withBody waiting body]
    exact .awaits body
  by_cases now : AtOnce method
  · have waits := @unanswered_atOnce _ target pieces now
    rw [treatEvent_request waiting]
    rcases now with rfl | rfl | rfl
    · rw [if_pos rfl]
      let b : Broker := { s.2 with state := s.2.state.reset env }
      have reset : (do
          onGlobalState (updateState (State.reset env))
          sendHttpResponseNoContent : OnHttp Unit) s' =
          sendHttpResponseNoContent (s'.1, b) := rfl
      rw [reset, sendHttpResponseNoContent, send_accepted (s := (s'.1, b)) silent']
      refine .answered body ⟨fun no => absurd no (by decide), fun no => absurd no (by decide)⟩ ?_
        waiting rfl
      exact fun unanswered => absurd (waits.mp unanswered).1 (by decide)
    · rw [if_neg (by decide), if_pos rfl]
      have gets := onGet_gets target s'
      generalize onGet target s' = result at gets
      cases gets with
      | raised e unreadable => exact .raised e (fun askable => unreadable (askable.get rfl)) silent
      | waits asked fine => exact .unanswered body (waits.mpr ⟨rfl, _, asked⟩) waiting silent
      | sent r plain fine =>
          rw [send_accepted silent']
          refine .answered body ⟨fun _ => fine, fun no => absurd no (by decide)⟩ ?_ waiting rfl
          intro unanswered
          obtain ⟨_, w, asked⟩ := waits.mp unanswered
          cases asked.symm.trans plain
    · rw [if_neg (by decide), if_neg (by decide), if_pos rfl]
      have handles := onDelete_handles target s'
      generalize onDelete target s' = result at handles
      cases handles with
      | raised e b unreadable =>
          exact .raised e (fun askable => unreadable (askable.delete rfl)) silent
      | sent r b fine =>
          rw [send_accepted (s := (s'.1, b)) silent']
          refine .answered body ⟨fun no => absurd no (by decide), fun _ => fine⟩ ?_ waiting rfl
          exact fun unanswered => absurd (waits.mp unanswered).1 (by decide)
  · rw [treatEvent_unknown waiting now body]
    exact .unanswered body (.inr fun answered => answered.elim now fun b => body b.1) waiting silent

variable (env) in
/-- How a piece of a body that is posted is treated. -/
theorem piece_handles (waiting : s.1.state = .waitingBody) (asked : s.1.target = some target)
    (described : s.1.headers = some headers) (used : s.1.method = some method)
    (body : WithBody method) (piece : Bytes) :
    Handles s (method = ascii "POST" → Postable env s.2 target headers piece)
      (treatEvent env (.data piece) s) := by
  rw [treatEvent_data waiting asked described]
  rcases body with rfl | rfl
  · rw [if_pos used]
    have handles := onPost_handles env target piece headers s
    generalize onPost env target piece headers s = result at handles
    cases handles with
    | raised e b not => exact .raised e b fun all => not (all rfl)
    | sent r b fine => exact .sent r b fun _ => fine
  · rw [if_neg (by rw [used]; decide), if_pos used]
    exact .sent notFound s.2 fun no => absurd no (by decide)

/-! ## Treating what has come -/

/-- An event is taken and treated before the request has been read to its end. -/
theorem treatPending_next (unread : s.1.httpParser.readAll = false) {e : H11Event}
    (proper : ∀ x, e ≠ .malformed x) (rest : List H11Event) : treatPending env (e :: rest) s =
      (treatEvent env e >>= fun _ => treatPending env rest)
        (reparse rest s.1.httpParser.following e.isEnd s) := by
  have free : s.1.httpParser.blocked = false := by
    rw [Connection.blocked, unread, Bool.false_and]
  rw [treatPending_free free, bind_ok (takeEvent_ok proper rest s), unread, Bool.false_or]

theorem begins_cons {events left : List H11Event} {e : H11Event}
    (sent : Begins events (e :: left)) :
    (∃ x, e = .malformed x ∧ left = []) ∨ ∃ rest, events = e :: rest ∧ Begins rest left := by
  cases sent with
  | malformed x => exact .inl ⟨_, rfl, rfl⟩
  | event e rest => exact .inr ⟨_, rfl, rest⟩

theorem begins_nil {left : List H11Event} (sent : Begins [] left) (e : H11Event) (mem : e ∈ left) :
    ∃ x, e = .malformed x := by
  cases sent with
  | cut => cases mem
  | malformed x => exact ⟨_, List.mem_singleton.mp mem⟩

/-- What comes behind the end of a request that has been read that far. -/
theorem Begins.through {later : List Bytes} {l future : List H11Event}
    (sent : Begins (later.map .data ++ [.endOfMessage]) (l ++ future))
    (ends : l.any H11Event.isEnd = true) : ∃ tail,
      l = later.map .data ++ .endOfMessage :: tail ∧ ∀ e ∈ tail, ∃ x, e = .malformed x := by
  induction later generalizing l with
  | nil =>
      cases l with
      | nil => cases ends
      | cons e tail =>
          rcases begins_cons sent with ⟨x, rfl, none⟩ | ⟨rest, same, sent⟩
          · rw [(List.append_eq_nil_iff.mp none).1] at ends
            cases ends
          · cases same
            exact ⟨tail, rfl, fun e mem => begins_nil sent e (List.mem_append_left _ mem)⟩
  | cons piece later ih =>
      cases l with
      | nil => cases ends
      | cons e l =>
          rcases begins_cons sent with ⟨x, rfl, none⟩ | ⟨rest, same, sent⟩
          · rw [(List.append_eq_nil_iff.mp none).1] at ends
            cases ends
          · cases same
            obtain ⟨tail, rfl, noise⟩ := ih sent ends
            exact ⟨tail, rfl, noise⟩

theorem Begins.whole_through {l future : List H11Event}
    (sent : Begins (whole method target headers pieces) (l ++ future))
    (ends : l.any H11Event.isEnd = true) : ∃ tail,
      l = .request method target headers :: (pieces.map .data ++ .endOfMessage :: tail) ∧
        ∀ e ∈ tail, ∃ x, e = .malformed x := by
  cases l with
  | nil => cases ends
  | cons e l =>
      rcases begins_cons sent with ⟨x, rfl, none⟩ | ⟨rest, same, behind⟩
      · rw [(List.append_eq_nil_iff.mp none).1] at ends
        cases ends
      · cases same
        obtain ⟨tail, rfl, noise⟩ := behind.through ends
        exact ⟨tail, rfl, noise⟩

theorem bodyOf_through (later : List Bytes) {tail : List H11Event}
    (noise : ∀ e ∈ tail, ∃ x, e = .malformed x) :
    bodyOf (later.map .data ++ .endOfMessage :: tail) = later := by
  have none : bodyOf tail = [] := by
    refine List.filterMap_eq_nil_iff.mpr fun e mem => ?_
    obtain ⟨x, rfl⟩ := noise e mem
    rfl
  have body : bodyOf (later.map .data) = later := by
    induction later with
    | nil => rfl
    | cons piece later ih => exact congrArg (piece :: ·) ih
  have split : bodyOf (later.map .data ++ .endOfMessage :: tail) =
      bodyOf (later.map .data) ++ bodyOf tail := List.filterMap_append
  rw [split, body, none, List.append_nil]

theorem no_request (later : List Bytes) {tail : List H11Event}
    (noise : ∀ e ∈ tail, ∃ x, e = .malformed x) :
    .request method target headers ∉ later.map .data ++ .endOfMessage :: tail := by
  intro mem
  rcases List.mem_append.mp mem with piece | behind
  · obtain ⟨_, _, no⟩ := List.mem_map.mp piece
    cases no
  · rcases List.mem_cons.mp behind with no | no
    · cases no
    · obtain ⟨x, no⟩ := noise _ no
      cases no

theorem blocked_behind (readAll : s.1.httpParser.readAll = true)
    (more : s.1.httpParser.following = true) : s.1.httpParser.blocked = true := by
  rw [Connection.blocked, readAll, more]
  rfl

variable (env) in
/-- The end of a request is treated, and h11 pauses behind it. -/
theorem treatPending_end (unread : s.1.httpParser.readAll = false)
    (more : s.1.httpParser.following = true) (tail : List H11Event) :
    ∃ t, treatPending env (.endOfMessage :: tail) s = .ok () t ∧
      t.1.httpParser.responded = s.1.httpParser.responded := by
  let t : HttpProtocol × Broker := ({ s.1 with
    httpParser := { s.1.httpParser with pending := tail, readAll := true }
    state := .waitingHeaders, method := none, target := none, headers := none }, s.2)
  refine ⟨t, ?_, rfl⟩
  rw [treatPending_next unread (fun x no => by cases no)]
  exact treatPending_blocked (blocked_behind (s := t) rfl more) tail

variable (env) in
/-- Nothing is done with a body that is not posted. -/
theorem treatPending_ignored (waiting : s.1.state = .waitingHeaders)
    (unread : s.1.httpParser.readAll = false) (more : s.1.httpParser.following = true)
    (later : List Bytes) (tail : List H11Event) :
    ∃ t, treatPending env (later.map .data ++ .endOfMessage :: tail) s = .ok () t ∧
      t.1.httpParser.responded = s.1.httpParser.responded := by
  induction later generalizing s with
  | nil => exact treatPending_end env unread more tail
  | cons piece later ih =>
      let rest := later.map .data ++ .endOfMessage :: tail
      let s' := reparse rest s.1.httpParser.following false s
      have next : treatPending env (.data piece :: rest) s = treatPending env rest s' :=
        (treatPending_next unread (fun x no => by cases no) rest).trans
          (bind_ok (treatEvent_ignores (s := s') waiting piece))
      obtain ⟨t, treated, same⟩ := ih (s := s') waiting rfl more
      exact ⟨t, next.trans treated, same⟩

/-- A piece that comes when the request has been answered makes something raise. -/
theorem treatPending_refuses (waiting : s.1.state = .waitingBody)
    (asked : s.1.target = some target) (described : s.1.headers = some headers)
    (used : s.1.method = some method) (body : WithBody method)
    (unread : s.1.httpParser.readAll = false) (answered : s.1.httpParser.responded = true)
    (piece : Bytes) (rest : List H11Event) :
    ¬ ∃ t, treatPending env (.data piece :: rest) s = .ok () t := by
  let s' := reparse rest s.1.httpParser.following false s
  have next : treatPending env (.data piece :: rest) s =
      (treatEvent env (.data piece) >>= fun _ => treatPending env rest) s' :=
    treatPending_next unread (fun x no => by cases no) rest
  have handles := piece_handles env (s := s') waiting asked described used body piece
  rw [next, bind_apply]
  generalize treatEvent env (.data piece) s' = result at handles
  rintro ⟨t, treated⟩
  cases handles with
  | raised e b not => cases treated
  | sent r b fine =>
      rw [send_refused (s := (s'.1, b)) answered] at treated
      cases treated

variable (env) in
/-- A body that is posted is treated to its end exactly if there is none, or one piece that can
be posted and is the first. -/
theorem treatPending_posted (waiting : s.1.state = .waitingBody)
    (asked : s.1.target = some target) (described : s.1.headers = some headers)
    (used : s.1.method = some method) (body : WithBody method)
    (unread : s.1.httpParser.readAll = false) (more : s.1.httpParser.following = true)
    (later : List Bytes) (tail : List H11Event) :
    (∃ t, treatPending env (later.map .data ++ .endOfMessage :: tail) s = .ok () t) ↔
      later = [] ∨ s.1.httpParser.responded = false ∧ ∃ piece, later = [piece] ∧
        (method = ascii "POST" → Postable env s.2 target headers piece) := by
  cases later with
  | nil =>
      obtain ⟨t, treated, _⟩ := treatPending_end env unread more tail
      exact iff_of_true ⟨t, treated⟩ (.inl rfl)
  | cons piece later =>
      cases silent : s.1.httpParser.responded with
      | true =>
          refine iff_of_false ?_ (by simp)
          exact treatPending_refuses waiting asked described used body unread silent piece _
      | false =>
          let rest := later.map .data ++ .endOfMessage :: tail
          let s' := reparse rest s.1.httpParser.following false s
          have next : treatPending env (.data piece :: rest) s =
              (treatEvent env (.data piece) >>= fun _ => treatPending env rest) s' :=
            treatPending_next unread (fun x no => by cases no) rest
          have handles := piece_handles env (s := s') waiting asked described used body piece
          have all : treatPending env ((piece :: later).map .data ++ .endOfMessage :: tail) s =
              treatPending env (.data piece :: rest) s := rfl
          rw [all, next, bind_apply]
          generalize treatEvent env (.data piece) s' = result at handles
          cases handles with
          | raised e b not =>
              refine iff_of_false (by simp) ?_
              rintro (no | ⟨_, p, same, fine⟩)
              · cases no
              · cases same
                exact not fine
          | sent r b fine =>
              rw [send_accepted (s := (s'.1, b)) silent]
              cases later with
              | nil =>
                  obtain ⟨t, treated, _⟩ := treatPending_end env (s := ({ s'.1 with
                    httpParser := { s'.1.httpParser with responded := true }
                    responses := s'.1.responses ++ [r] }, b)) rfl more tail
                  exact iff_of_true ⟨t, treated⟩ (.inr ⟨rfl, piece, rfl, fine⟩)
              | cons second later =>
                  refine iff_of_false ?_ (by simp)
                  exact treatPending_refuses (s := ({ s'.1 with
                    httpParser := { s'.1.httpParser with responded := true }
                    responses := s'.1.responses ++ [r] }, b)) waiting asked described used body rfl
                    rfl second _

/-! ## Which calls pause for ever -/

theorem goesThrough_behind (later : List Bytes) {tail : List H11Event}
    (noise : ∀ e ∈ tail, ∃ x, e = .malformed x) :
    GoesThrough env method target headers s (later.map .data ++ .endOfMessage :: tail) ↔
      (WithBody method → later = [] ∨ s.1.httpParser.responded = false ∧ ∃ piece, later = [piece] ∧
        (method = ascii "POST" → Postable env s.2 target headers piece)) := by
  have body := bodyOf_through later noise
  constructor
  · intro through posted
    have pieces := through.body posted
    rwa [body] at pieces
  · refine fun posted => ⟨fun mem => absurd mem (no_request later noise), ?_⟩
    rwa [body]

theorem goesThrough_whole (pieces : List Bytes) {tail : List H11Event}
    (noise : ∀ e ∈ tail, ∃ x, e = .malformed x) :
    GoesThrough env method target headers s
        (.request method target headers :: (pieces.map .data ++ .endOfMessage :: tail)) ↔
      Askable s.2.state method target ∧
      GoesThrough env method target headers s (pieces.map .data ++ .endOfMessage :: tail) := by
  constructor
  · intro through
    exact ⟨through.asked List.mem_cons_self,
      ⟨fun mem => absurd mem (no_request pieces noise), through.body⟩⟩
  · rintro ⟨askable, through⟩
    exact ⟨fun _ => askable, through.body⟩

theorem goesThrough_noise {l : List H11Event} (noise : ∀ e ∈ l, ∃ x, e = .malformed x) :
    GoesThrough env method target headers s l := by
  constructor
  · intro mem
    obtain ⟨x, no⟩ := noise _ mem
    cases no
  · refine fun _ => .inl (List.filterMap_eq_nil_iff.mpr fun e mem => ?_)
    obtain ⟨x, rfl⟩ := noise e mem
    rfl

theorem withBody_askable {s : State} (body : WithBody method) : Askable s method target :=
  ⟨fun get => absurd (.inr (.inl get)) (withBody_not_atOnce body),
    fun delete => absurd (.inr (.inr delete)) (withBody_not_atOnce body)⟩

/-- Where the treatment of the headers leaves the events behind them. -/
structure BehindHeaders (method target : Bytes) (headers : Headers) (pieces : List Bytes)
    (s t : HttpProtocol × Broker) : Prop where
  askable : Askable s.2.state method target
  unread : t.1.httpParser.readAll = false
  following : t.1.httpParser.following = s.1.httpParser.following
  awaits : WithBody method → t.1.state = .waitingBody ∧ t.1.method = some method ∧
    t.1.target = some target ∧ t.1.headers = some headers ∧
    t.1.httpParser.responded = false ∧ t.2 = s.2
  ignores : ¬ WithBody method → t.1.state = .waitingHeaders ∧
    (Unanswered method target pieces → t.1.httpParser.responded = false)

variable (env pieces) in
/-- Either what the headers ask for cannot be done and something raises, or the events behind them
are treated. -/
theorem treatPending_request (waiting : s.1.state = .waitingHeaders)
    (unread : s.1.httpParser.readAll = false) (silent : s.1.httpParser.responded = false)
    (rest : List H11Event) :
    (¬ Askable s.2.state method target ∧
        ∀ t, treatPending env (.request method target headers :: rest) s ≠ .ok () t) ∨
      ∃ t, BehindHeaders method target headers pieces s t ∧
        treatPending env (.request method target headers :: rest) s = treatPending env rest t := by
  let s' := reparse rest s.1.httpParser.following false s
  have next : treatPending env (.request method target headers :: rest) s =
      (treatEvent env (.request method target headers) >>= fun _ => treatPending env rest) s' :=
    treatPending_next unread (fun x no => by cases no) rest
  have handled := treatEvent_handled env (.request method target headers) s'
  have headed := request_headed env method target headers pieces (s := s') waiting silent
  rw [next, bind_apply]
  generalize result : treatEvent env (.request method target headers) s' = r at headed
  cases headed with
  | raised e not quiet => exact .inl ⟨not, fun t no => by cases no⟩
  | awaits body =>
      refine .inr ⟨({ s'.1 with
        method := some method, target := some target, headers := some headers
        state := .waitingBody }, s'.2), ?_, rfl⟩
      exact ⟨withBody_askable body, rfl, rfl, fun _ => ⟨rfl, rfl, rfl, rfl, silent, rfl⟩,
        fun no => absurd body no⟩
  | answered posted askable answers waits answered =>
      rw [after_ok result] at handled
      refine .inr ⟨_, ⟨askable, handled.readAll, handled.following, fun body => absurd body posted,
        fun _ => ⟨waits, fun unanswered => absurd unanswered answers⟩⟩, rfl⟩
  | unanswered posted unanswered waits quiet =>
      rw [after_ok result] at handled
      refine .inr ⟨_, ⟨unanswered.askable, handled.readAll, handled.following,
        fun body => absurd body posted, fun _ => ⟨waits, fun _ => quiet⟩⟩, rfl⟩

variable (env) in
/-- When the request has been read to its end with bytes of another one behind it, nothing has
raised exactly if it goes through. -/
theorem Reading.treated_iff {l future : List H11Event}
    (reading : Reading method target headers pieces (l ++ future) s.1)
    (more : s.1.httpParser.following = true)
    (ends : (s.1.httpParser.readAll || l.any H11Event.isEnd) = true) :
    (∃ t, treatPending env l s = .ok () t) ↔ GoesThrough env method target headers s l := by
  cases reading with
  | ahead sent waiting unread silent idle =>
      rw [unread, Bool.false_or] at ends
      obtain ⟨tail, rfl, noise⟩ := sent.whole_through ends
      let rest := pieces.map .data ++ .endOfMessage :: tail
      rw [goesThrough_whole pieces noise, goesThrough_behind pieces noise]
      rcases treatPending_request env pieces waiting unread silent rest with
        ⟨not, raises⟩ | ⟨t, behind, next⟩
      · refine iff_of_false ?_ fun all => not all.1
        rintro ⟨t, treated⟩
        exact raises t treated
      rw [next, and_iff_right behind.askable]
      by_cases body : WithBody method
      · obtain ⟨waits, used, asked, described, quiet, same⟩ := behind.awaits body
        have posted := treatPending_posted env waits asked described used body behind.unread
          (behind.following.trans more) pieces tail
        rw [quiet, same] at posted
        rw [forall_prop_of_true body, silent]
        exact posted
      · obtain ⟨t', treated, _⟩ := treatPending_ignored env (behind.ignores body).1 behind.unread
          (behind.following.trans more) pieces tail
        exact iff_of_true ⟨t', treated⟩ fun posted => absurd posted body
  | posted later body sent waiting used asked described unread answered =>
      rw [unread, Bool.false_or] at ends
      obtain ⟨tail, rfl, noise⟩ := sent.through ends
      rw [goesThrough_behind later noise, forall_prop_of_true body]
      exact treatPending_posted env waiting asked described used body unread more later tail
  | ignored later posted sent waiting unread answered =>
      rw [unread, Bool.false_or] at ends
      obtain ⟨tail, rfl, noise⟩ := sent.through ends
      obtain ⟨t, treated, _⟩ := treatPending_ignored env waiting unread more later tail
      rw [goesThrough_behind later noise]
      exact iff_of_true ⟨t, treated⟩ fun body => absurd body posted
  | ended sent readAll answered =>
      exact iff_of_true ⟨s, treatPending_blocked (blocked_behind readAll more) l⟩
        (goesThrough_noise fun e mem => begins_nil sent e (List.mem_append_left _ mem))

variable (env) in
/-- A request that nothing answers goes through and stays unanswered. -/
theorem Reading.stays_silent {l future : List H11Event}
    (reading : Reading method target headers pieces (l ++ future) s.1)
    (more : s.1.httpParser.following = true)
    (ends : (s.1.httpParser.readAll || l.any H11Event.isEnd) = true)
    (silent : s.1.httpParser.responded = false) (unanswered : Unanswered method target pieces) :
    ∃ t, treatPending env l s = .ok () t ∧ t.1.httpParser.responded = false := by
  cases reading with
  | ahead sent waiting unread _ idle =>
      rw [unread, Bool.false_or] at ends
      obtain ⟨tail, rfl, _⟩ := sent.whole_through ends
      rcases treatPending_request env pieces waiting unread silent
        (pieces.map .data ++ .endOfMessage :: tail) with ⟨not, _⟩ | ⟨t, behind, next⟩
      · exact absurd unanswered.askable not
      rw [next]
      by_cases body : WithBody method
      · cases (unanswered_withBody body).mp unanswered
        obtain ⟨_, _, _, _, quiet, _⟩ := behind.awaits body
        obtain ⟨t', treated, same⟩ := treatPending_end env behind.unread
          (behind.following.trans more) tail
        exact ⟨t', treated, same.trans quiet⟩
      · obtain ⟨waits, quiet⟩ := behind.ignores body
        obtain ⟨t', treated, same⟩ := treatPending_ignored env waits behind.unread
          (behind.following.trans more) pieces tail
        exact ⟨t', treated, same.trans (quiet unanswered)⟩
  | posted later body sent waiting used asked described unread answered =>
      rw [unread, Bool.false_or] at ends
      obtain ⟨tail, rfl, noise⟩ := sent.through ends
      cases (unanswered_withBody body).mp unanswered
      rcases answered with yes | rfl
      · rw [silent] at yes
        cases yes
      · obtain ⟨t, treated, same⟩ := treatPending_end env unread more tail
        exact ⟨t, treated, same.trans silent⟩
  | ignored later posted sent waiting unread answered =>
      rw [unread, Bool.false_or] at ends
      obtain ⟨tail, rfl, noise⟩ := sent.through ends
      obtain ⟨t, treated, same⟩ := treatPending_ignored env waiting unread more later tail
      exact ⟨t, treated, same.trans silent⟩
  | ended sent readAll answered =>
      exact ⟨s, treatPending_blocked (blocked_behind readAll more) l, silent⟩

/-! ## How far the request comes -/

variable (env) in
/-- The treatment of one event. -/
theorem Reading.treats {e : H11Event} {left : List H11Event}
    (reading : Reading method target headers pieces (e :: left) s.1)
    (proper : ∀ x, e ≠ .malformed x) (p : List H11Event) (m : Bool) :
    match treatEvent env e (reparse p m (s.1.httpParser.readAll || e.isEnd) s) with
    | .ok _ t => Reading method target headers pieces left t.1
    | .error _ t => t.1.httpParser.responded = false ∨
        Reading method target headers pieces left t.1 := by
  cases reading with
  | ahead sent waiting unread silent idle =>
      rcases begins_cons sent with ⟨x, no, _⟩ | ⟨events, same, behind⟩
      · exact absurd no (proper x)
      cases same
      let s' := reparse p m (s.1.httpParser.readAll || false) s
      have unread' : s'.1.httpParser.readAll = false := (Bool.or_false _).trans unread
      have handled := treatEvent_handled env (.request method target headers) s'
      have headed := request_headed env method target headers pieces (s := s') waiting silent
      show match treatEvent env (.request method target headers) s' with
        | .ok _ t => Reading method target headers pieces left t.1
        | .error _ t => t.1.httpParser.responded = false ∨
            Reading method target headers pieces left t.1
      generalize result : treatEvent env (.request method target headers) s' = r at headed
      cases headed with
      | raised e not quiet => exact .inl quiet
      | awaits body => exact .posted pieces body behind rfl rfl rfl rfl unread' (.inr rfl)
      | answered posted _ _ waits answered =>
          rw [after_ok result] at handled
          exact .ignored pieces posted behind waits (handled.readAll.trans unread') (.inl answered)
      | unanswered posted unanswered waits quiet =>
          rw [after_ok result] at handled
          exact .ignored pieces posted behind waits (handled.readAll.trans unread') (.inr unanswered)
  | posted later body sent waiting used asked described unread answered =>
      rcases begins_cons sent with ⟨x, no, _⟩ | ⟨events, same, behind⟩
      · exact absurd no (proper x)
      cases later with
      | nil =>
          cases same
          refine .ended behind (Bool.or_true _) ?_
          exact answered.imp_right fun none => (unanswered_withBody body).mpr none.symm
      | cons piece later =>
          cases same
          let s' := reparse p m (s.1.httpParser.readAll || false) s
          have unread' : s'.1.httpParser.readAll = false := (Bool.or_false _).trans unread
          have handles := piece_handles env (s := s') waiting asked described used body piece
          show match treatEvent env (.data piece) s' with
            | .ok _ t => Reading method target headers pieces left t.1
            | .error _ t => t.1.httpParser.responded = false ∨
                Reading method target headers pieces left t.1
          generalize treatEvent env (.data piece) s' = result at handles
          have goesOn : s'.1.httpParser.responded = true →
              Reading method target headers pieces left s'.1 := fun yes =>
            .posted later body behind waiting used asked described unread' (.inl yes)
          cases handles with
          | raised e b not =>
              cases silent : s.1.httpParser.responded with
              | true => exact .inr (goesOn silent)
              | false => exact .inl silent
          | sent r b fine =>
              cases silent : s.1.httpParser.responded with
              | true =>
                  -- a later piece has been posted, and its response is refused: the transport
                  -- stays open and the rest is treated in the next call
                  rw [send_refused (s := (s'.1, b)) silent]
                  exact .inr (goesOn silent)
              | false =>
                  rw [send_accepted (s := (s'.1, b)) silent]
                  exact .posted later body behind waiting used asked described unread' (.inl rfl)
  | ignored later posted sent waiting unread answered =>
      rcases begins_cons sent with ⟨x, no, _⟩ | ⟨events, same, behind⟩
      · exact absurd no (proper x)
      cases later with
      | nil =>
          cases same
          exact .ended behind (Bool.or_true _) answered
      | cons piece later =>
          cases same
          let s' := reparse p m (s.1.httpParser.readAll || false) s
          have unread' : s'.1.httpParser.readAll = false := (Bool.or_false _).trans unread
          show match treatEvent env (.data piece) s' with
            | .ok _ t => Reading method target headers pieces left t.1
            | .error _ t => t.1.httpParser.responded = false ∨
                Reading method target headers pieces left t.1
          rw [treatEvent_ignores (s := s') waiting piece]
          exact .ignored later posted behind waiting unread' answered
  | ended sent readAll answered =>
      obtain ⟨x, no⟩ := begins_nil sent e List.mem_cons_self
      exact absurd no (proper x)

variable (env) in
/-- The treatment of all that has come. -/
theorem Reading.treatsPending {l future : List H11Event}
    (reading : Reading method target headers pieces (l ++ future) s.1)
    (pending : s.1.httpParser.pending = l) :
    match treatPending env l s with
    | .ok _ t => Reading method target headers pieces (t.1.httpParser.pending ++ future) t.1
    | .error _ t => t.1.httpParser.responded = false ∨
        Reading method target headers pieces (t.1.httpParser.pending ++ future) t.1 := by
  induction l generalizing s with
  | nil =>
      show Reading method target headers pieces (s.1.httpParser.pending ++ future) s.1
      rwa [pending]
  | cons e rest ih =>
      cases blocked : s.1.httpParser.blocked with
      | true =>
          rw [treatPending_blocked blocked]
          show Reading method target headers pieces (s.1.httpParser.pending ++ future) s.1
          rwa [pending]
      | false =>
          rw [treatPending_free blocked]
          by_cases noise : ∃ x, e = .malformed x
          · obtain ⟨x, rfl⟩ := noise
            refine .inr ?_
            show Reading method target headers pieces (s.1.httpParser.pending ++ future) s.1
            rwa [pending]
          · have proper : ∀ x, e ≠ .malformed x := fun x same => noise ⟨x, same⟩
            let s' := reparse rest s.1.httpParser.following (s.1.httpParser.readAll || e.isEnd) s
            have treats := reading.treats env proper rest s.1.httpParser.following
            have handled := treatEvent_handled env e s'
            rw [bind_ok (takeEvent_ok proper rest s), bind_apply]
            change match treatEvent env e s' with
              | .ok _ t => Reading method target headers pieces (rest ++ future) t.1
              | .error _ t => t.1.httpParser.responded = false ∨
                  Reading method target headers pieces (rest ++ future) t.1 at treats
            cases result : treatEvent env e s' with
            | ok u t =>
                rw [after_ok result] at handled
                rw [result] at treats
                exact ih treats handled.pending
            | error x t =>
                rw [after_error result] at handled
                rw [result] at treats
                exact treats.imp_right fun rest => handled.pending.symm ▸ rest

/-- What holds between two calls, with these events still to come. -/
def Open (method target : Bytes) (headers : Headers) (pieces : List Bytes)
    (future : List H11Event) (s : HttpProtocol × Broker) : Prop :=
  s.1.closing = true ∨
    Reading method target headers pieces (s.1.httpParser.pending ++ future) s.1

theorem failed_open {future : List H11Event} (either : t.1.httpParser.responded = false ∨
    Reading method target headers pieces (t.1.httpParser.pending ++ future) t.1) :
    Open method target headers pieces future (failed t) := by
  cases answered : t.1.httpParser.responded with
  | true =>
      rw [failed_answered answered]
      exact either.imp_left fun no => by rw [answered] at no; cases no
  | false =>
      obtain ⟨r, _, same⟩ := failed_unanswered answered
      exact .inl (by rw [same])

/-- The end of a wait touches nothing but the response. -/
theorem onGetDone_alike (result : Except PyError Bool) (s : HttpProtocol × Broker) :
    ∃ answered responses, after (onGetDone result) s = ({ s.1 with
        httpParser := { s.1.httpParser with responded := answered }, responses }, s.2) ∧
      (s.1.httpParser.responded = true → answered = true) := by
  have sent : ∀ r : Response, ∃ answered responses, after (send r) s = ({ s.1 with
        httpParser := { s.1.httpParser with responded := answered }, responses }, s.2) ∧
      (s.1.httpParser.responded = true → answered = true) := by
    intro r
    cases answered : s.1.httpParser.responded with
    | true =>
        rw [after_error (send_refused answered r)]
        exact ⟨s.1.httpParser.responded, s.1.responses, rfl, fun _ => answered⟩
    | false =>
        rw [after_ok (send_accepted answered r)]
        exact ⟨true, _, rfl, fun _ => rfl⟩
  unfold onGetDone
  split
  · rename_i success
    cases success <;> exact sent _
  · exact sent _
  · exact ⟨s.1.httpParser.responded, s.1.responses, rfl, id⟩

theorem Reading.done {left : List H11Event} {w : Wait} {rest : List Wait}
    (reading : Reading method target headers pieces left s.1) (futures : s.1.futures = w :: rest)
    (result : Except PyError Bool) : Reading method target headers pieces left
      (after (onGetDone result) ({ s.1 with futures := rest }, s.2)).1 := by
  obtain ⟨answered, responses, same, kept⟩ :=
    onGetDone_alike result ({ s.1 with futures := rest }, s.2)
  rw [same]
  cases reading with
  | ahead sent waiting unread silent idle =>
      rw [idle] at futures
      cases futures
  | posted later body sent waiting used asked described unread either =>
      exact .posted later body sent waiting used asked described unread (either.imp_left kept)
  | ignored later posted sent waiting unread either =>
      exact .ignored later posted sent waiting unread (either.imp_left kept)
  | ended sent readAll either => exact .ended sent readAll (either.imp_left kept)

theorem Reading.received {left : List H11Event}
    (reading : Reading method target headers pieces left s.1) (chunk : Chunk) :
    Reading method target headers pieces left (received chunk s).1 := by
  cases reading with
  | ahead sent waiting unread silent idle => exact .ahead sent waiting unread silent idle
  | posted later body sent waiting used asked described unread either =>
      exact .posted later body sent waiting used asked described unread either
  | ignored later posted sent waiting unread either =>
      exact .ignored later posted sent waiting unread either
  | ended sent readAll either => exact .ended sent readAll either

/-- What a call of `_data_received` starts from. -/
theorem Open.arrived {chunk : Chunk} {rest : List Action} (opened : s.1.closing = false)
    (holds : Open method target headers pieces (incoming (.dataReceived chunk :: rest)) s) :
    Reading method target headers pieces
      (s.1.httpParser.pending ++ chunk.events ++ incoming rest) (received chunk s).1 := by
  rw [List.append_assoc]
  exact (holds.resolve_left fun closed => by rw [opened] at closed; cases closed).received chunk

variable (env refuses) in
/-- What holds between two calls is kept by a call, and by the end of a wait. -/
theorem step_open_kept (a : Action) {rest : List Action}
    (holds : Open method target headers pieces (incoming (a :: rest)) s) :
    Open method target headers pieces (incoming rest) (step env refuses s a) := by
  cases a with
  | getDone result =>
      cases futures : s.1.futures with
      | nil =>
          simp only [step, futures]
          exact holds
      | cons w others =>
          simp only [step, futures]
          have handled := (onGetDone_handled result ({ s.1 with futures := others }, s.2)).1
          rcases holds with closed | reading
          · exact .inl (handled.closing.trans closed)
          · refine .inr ?_
            rw [handled.pending]
            exact reading.done futures result
  | dataReceived chunk =>
      cases opened : s.1.closing with
      | true =>
          simp only [step, opened, if_true]
          exact .inl opened
      | false =>
          let l := s.1.httpParser.pending ++ chunk.events
          have loop : eventLoop env refuses (enough s.1 chunk) (received chunk s) =
              (treatPending env l >>= fun _ => comeToRest refuses) (received chunk s) := by
            refine eventLoop_eq ?_
            simp only [received, enough, List.length_append]
            omega
          have treats := (holds.arrived opened).treatsPending env rfl
          rw [step_open opened, loop, bind_apply]
          cases treated : treatPending env l (received chunk s) with
          | error e t =>
              rw [treated] at treats
              exact failed_open treats
          | ok u t =>
              rw [treated] at treats
              dsimp only
              cases blocked : t.1.httpParser.blocked with
              | false =>
                  rw [comeToRest_free blocked]
                  exact .inr treats
              | true =>
                  rw [comeToRest_blocked blocked]
                  cases refuses with
                  | none => exact .inr treats
                  | some e =>
                      cases answered : t.1.httpParser.responded with
                      | false => exact .inr treats
                      | true => exact failed_open (.inr treats)

/-- A request that has been read to its end without an answer is one that nothing answers. -/
theorem Reading.at_end {left : List H11Event} {h : HttpProtocol}
    (reading : Reading method target headers pieces left h) (readAll : h.httpParser.readAll = true)
    (silent : h.httpParser.responded = false) : Unanswered method target pieces := by
  have unread : ¬ h.httpParser.readAll = false := by simp [readAll]
  cases reading with
  | ahead sent waiting no _ idle => exact absurd no unread
  | posted later body sent waiting used asked described no either => exact absurd no unread
  | ignored later posted sent waiting no either => exact absurd no unread
  | ended sent _ either => exact either.resolve_left fun yes => by rw [silent] at yes; cases yes

/-- The calls that stall are the ones that are named by the request. -/
theorem stalls_iff_freezes {a : Action} {rest : List Action}
    (holds : Open method target headers pieces (incoming (a :: rest)) s) :
    Stalls env refuses s a ↔ Freezes env refuses method target headers pieces s a := by
  cases a with
  | getDone result => exact Iff.rfl
  | dataReceived chunk =>
      refine and_congr_right fun opened => and_congr_right fun piped => ?_
      have reading := holds.arrived opened
      obtain ⟨more, ends⟩ := Bool.and_eq_true_iff.mp piped
      cases refuses with
      | none =>
          have treated := reading.treated_iff env more ends
          constructor
          · rintro ⟨t, runs, _⟩
            obtain ⟨asked, body⟩ := treated.mp ⟨t, runs⟩
            exact ⟨asked, body⟩
          · rintro ⟨asked, body⟩
            obtain ⟨t, runs⟩ := treated.mpr ⟨asked, body⟩
            exact ⟨t, runs, .inl rfl⟩
      | some e =>
          constructor
          · rintro ⟨t, runs, no | quiet⟩
            · cases no
            have before : s.1.httpParser.responded = false := by
              have progress := treatPending_proceeds env
                (s.1.httpParser.pending ++ chunk.events) (received chunk s)
              rw [after_ok runs] at progress
              rcases progress.1 with ⟨same, _⟩ | ⟨silent, _⟩
              · exact same.symm.trans quiet
              · exact silent
            have treats := reading.treatsPending env rfl
            rw [runs] at treats
            exact ⟨before, treats.at_end (((treatPending_ok runs).2 more).trans ends) quiet⟩
          · rintro ⟨silent, unanswered⟩
            obtain ⟨t, runs, quiet⟩ := reading.stays_silent env more ends silent unanswered
            exact ⟨t, runs, .inr quiet⟩

/-- In a session that brings a request, or as much of it as comes, each call of `_data_received`
ends exactly as long as none freezes. -/
theorem event_loop_ends_iff (env : Env) (refuses : Option PyError) (b : Broker)
    {actions : List Action}
    (sent : Begins (whole method target headers pieces) (incoming actions)) :
    Runs.Along (step env refuses) (LoopEnds env refuses) (HttpProtocol.init, b) actions ↔
      Runs.Along (step env refuses)
        (fun s a => ¬ Freezes env refuses method target headers pieces s a)
        (HttpProtocol.init, b) actions := by
  have start : Open method target headers pieces (incoming actions) (HttpProtocol.init, b) :=
    .inr (.ahead sent rfl rfl rfl rfl)
  -- what is still to come changes with each action, so the invariant goes with the induction
  clear sent
  generalize (HttpProtocol.init, b) = s at start
  induction actions generalizing s with
  | nil => exact Iff.rfl
  | cons a rest ih =>
      have here : LoopEnds env refuses s a ↔
          ¬ Freezes env refuses method target headers pieces s a :=
        (loopEnds_iff a).trans (not_congr (stalls_iff_freezes start))
      exact and_congr here (ih _ (step_open_kept env refuses a start))

end

/-- A wait for an acknowledgement, with bytes of another request behind it. -/
def pipelinedWait : Chunk where
  events := [.request (ascii "GET") (ascii "/messages-acknowledged/7") [], .endOfMessage]
  following := true

/-- The loop goes on for ever although h11 would refuse the bytes behind an answered request. -/
theorem pipelined_wait_never_ends :
    ¬ Runs.Along (step guestEnv (some .localProtocolError))
      (LoopEnds guestEnv (some .localProtocolError))
      (HttpProtocol.init, (session []).broker) [.dataReceived pipelinedWait] := by
  intro along
  have sent : Begins (whole (ascii "GET") (ascii "/messages-acknowledged/7") [] [])
      (incoming [.dataReceived pipelinedWait]) := .event _ (.event _ (.cut _))
  have waits : waitOf (ascii "/messages-acknowledged/7") = .ok (some (.messageAcknowledged 7)) := by
    have named : lastPart (ascii "/messages-acknowledged/7") = .ok (ascii "7") := by decide +kernel
    have read : readTag (ascii "7") = .ok 7 := by decide +kernel
    unfold waitOf
    rw [if_neg (by decide), if_pos (by decide), named]
    show (do return some (Wait.messageAcknowledged (← readTag (ascii "7")))) = _
    rw [read]
    rfl
  have start : Open (ascii "GET") (ascii "/messages-acknowledged/7") [] []
      (incoming [.dataReceived pipelinedWait]) (HttpProtocol.init, (session []).broker) :=
    .inr (.ahead sent rfl rfl rfl rfl)
  refine (loopEnds_iff _).mp along.1 ((stalls_iff_freezes start).mpr ?_)
  exact ⟨rfl, rfl, rfl, .inl ⟨rfl, _, waits⟩⟩

/-- Bytes of another request that come when the wait has been answered end the call. -/
theorem answered_wait_lets_go :
    Runs.Along (step guestEnv (some .localProtocolError))
      (LoopEnds guestEnv (some .localProtocolError)) (HttpProtocol.init, (session []).broker)
      (acknowledgedWait ++ [.dataReceived { events := [], following := true }]) := by
  have sent : Begins (whole (ascii "GET") (ascii "/messages-acknowledged/7") [] [])
      (incoming (acknowledgedWait ++ [.dataReceived { events := [], following := true }])) :=
    .event _ (.event _ (.cut _))
  refine (event_loop_ends_iff guestEnv _ _ sent).mpr ⟨?_, ?_, id, ?_, trivial⟩
  · exact fun freezes => absurd freezes.2.1 (by decide +kernel)
  · exact fun freezes => absurd freezes.2.1 (by decide +kernel)
  · exact fun freezes => absurd freezes.2.2.1 (by decide +kernel)

end Http
end MockAmqp
