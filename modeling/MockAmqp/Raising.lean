import MockAmqp.Publications
import MockAmqp.Replies

/-!
# When the handlers raise

A handler that raises does so before its answer. Whether it does depends on the target, the
headers and the body of the request, and on what the broker holds.
-/

namespace MockAmqp
namespace Http
open Exec

/-- The wait that a GET asks for, or `none` where it asks for something else. -/
def waitOf (target : Bytes) : Except PyError (Option Wait) :=
  if startsWith target "/authentification-done-with-success-on/" then do
    return some (.authenticationPerformedOn (← lastPart target))
  else if startsWith target "/messages-acknowledged/" then do
    return some (.messageAcknowledged (← readTag (← lastPart target)))
  else if startsWith target "/messages-not-acknowledged/" then do
    return some (.messageNotAcknowledged (← readTag (← lastPart target)))
  else if startsWith target "/messages-requeued/" then do
    return some (.messageRequeued (← readTag (← lastPart target)))
  else if startsWith target "/queue-bound-to-exchange/" then
    match splitSlash 3 target with
    | [_, _, queue, exchange] => do
        return some (.queueBound (← decodeUtf8 false queue) (← decodeUtf8 false exchange))
    | _ => .error .valueError
  else .ok none

/-- The messages that a name stands for can be listed as a JSON text. -/
def Listable (target : Bytes) (get : Str → Except PyError (Option (List Val))) : Prop :=
  ∃ name messages, destination target = .ok name ∧ get name = .ok messages ∧
    ∀ l ∈ messages, (Doc.list (l.map .val)).isJson = true

/-- What a GET asks for can be read and shown. -/
structure Gettable (s : State) (target : Bytes) : Prop where
  wait : ∃ w, waitOf target = .ok w
  root : target = ascii "/" → s.document.isJson = true
  queue : startsWith target "/messages-in-queue/" = true → Listable target s.getMessagesOfQueue
  exchange : startsWith target "/messages-in-exchange/" = true →
    Listable target s.getMessagesOfExchange

/-- How a GET is handled. -/
inductive Gets (target : Bytes) (s : HttpProtocol × Broker) :
    EStateM.Result PyError (HttpProtocol × Broker) Unit → Prop
  | raised (e : PyError) : ¬ Gettable s.2.state target → Gets target s (.error e s)
  | waits {w : Wait} : waitOf target = .ok (some w) → Gettable s.2.state target →
      Gets target s (ensureFuture w s)
  | sent (r : Response) : waitOf target = .ok none → Gettable s.2.state target →
      Gets target s (send r s)

section
variable {target : Bytes} {s : HttpProtocol × Broker}

/-- No path begins with another one. -/
def Apart (paths : List String) : Prop :=
  ∀ p ∈ paths, ∀ q ∈ paths, p ≠ q → (ascii p).isPrefixOf (ascii q) = false

theorem Apart.other {paths : List String} (apart : Apart paths) {p q : String}
    (asked : startsWith target p = true) (member : p ∈ paths) (member' : q ∈ paths) (ne : p ≠ q) :
    startsWith target q = false :=
  startsWith_unique (p := (p, q)) asked
    ⟨apart p member q member' ne, apart q member' p member ne.symm⟩

/-- The paths of the GET requests. -/
def getPaths : List String :=
  ["/authentification-done-with-success-on/", "/messages-acknowledged/",
    "/messages-not-acknowledged/", "/messages-requeued/", "/messages-in-queue/",
    "/messages-in-exchange/", "/queue-bound-to-exchange/"]

theorem getPaths_apart : Apart getPaths := by
  unfold Apart
  decide +kernel

theorem waitOf_plain (other : startsWith target "/authentification-done-with-success-on/" = false ∧
    startsWith target "/messages-acknowledged/" = false ∧
    startsWith target "/messages-not-acknowledged/" = false ∧
    startsWith target "/messages-requeued/" = false ∧
    startsWith target "/queue-bound-to-exchange/" = false) : waitOf target = .ok none := by
  obtain ⟨login, ack, nack, requeued, bound⟩ := other
  unfold waitOf
  rw [login, ack, nack, requeued, bound]
  rfl

/-- A path that asks for messages. -/
theorem waitOf_listing {path : String} (asked : startsWith target path = true)
    (listing : path = "/messages-in-queue/" ∨ path = "/messages-in-exchange/") :
    waitOf target = .ok none := by
  have member : path ∈ getPaths := by rcases listing with rfl | rfl <;> decide
  have other : ∀ q ∈ getPaths, path ≠ q → startsWith target q = false := fun q member' ne =>
    getPaths_apart.other asked member member' ne
  refine waitOf_plain ⟨other _ (by decide) ?_, other _ (by decide) ?_, other _ (by decide) ?_,
    other _ (by decide) ?_, other _ (by decide) ?_⟩
  all_goals rcases listing with rfl | rfl <;> decide

theorem waitOf_root : waitOf (ascii "/") = .ok none := waitOf_plain (by decide +kernel)

/-- What asks for a wait asks for nothing that has to be shown. -/
theorem waits_gettable {s : State} {w : Wait} (waits : waitOf target = .ok (some w)) :
    Gettable s target := by
  refine ⟨⟨_, waits⟩, fun root => ?_, fun queue => ?_, fun exchange => ?_⟩
  · rw [root, waitOf_root] at waits
    cases waits
  · cases waits.symm.trans (waitOf_listing queue (.inl rfl))
  · cases waits.symm.trans (waitOf_listing exchange (.inr rfl))

/-- A path that only asks for a wait. -/
theorem gets_wait {x : Except PyError Wait} (waits : waitOf target = x.map some)
    (asks : onGet target = attempt x >>= ensureFuture) : Gets target s (onGet target s) := by
  rw [asks]
  cases x with
  | error e =>
      refine .raised e fun fine => ?_
      obtain ⟨w, same⟩ := fine.wait
      rw [waits] at same
      cases same
  | ok w => exact .waits waits (waits_gettable waits)

/-- The listing of the messages that a name stands for. -/
theorem listing_gets {g : State → Str → Except PyError (Option (List Val))}
    (plain : waitOf target = .ok none)
    (fine : Gettable s.2.state target ↔ Listable target (g s.2.state))
    (asks : onGet target = do
      let name ← attempt (decodeUtf8 false (← attempt (lastPart target)))
      let s ← read fun s : HttpProtocol × Broker => s.2.state
      sendMessages (← attempt (g s name))) : Gets target s (onGet target s) := by
  have reads : ∀ name, destination target = .ok name → onGet target s =
      (attempt (g s.2.state name) >>= sendMessages : OnHttp Unit) s := by
    intro name named
    obtain ⟨last, parts, decodes⟩ := except_bind_eq_ok.mp named
    rw [asks, parts, attempt_bind_ok, decodes]
    rfl
  cases named : destination target with
  | error e =>
      have raised : onGet target s = .error e s := by
        unfold destination at named
        rw [asks]
        cases parts : lastPart target with
        | error e' =>
            rw [parts] at named
            cases named
            rfl
        | ok last =>
            rw [parts] at named
            have failed : decodeUtf8 false last = .error e := named
            rw [attempt_bind_ok, failed]
            rfl
      rw [raised]
      refine .raised e fun gettable => ?_
      obtain ⟨name, messages, named', _⟩ := fine.mp gettable
      cases named.symm.trans named'
  | ok name =>
      rw [reads name named]
      cases listed : g s.2.state name with
      | error e =>
          refine .raised e fun gettable => ?_
          obtain ⟨name', messages, named', listed', _⟩ := fine.mp gettable
          cases named.symm.trans named'
          cases listed.symm.trans listed'
      | ok messages =>
          rw [attempt_bind_ok]
          cases messages with
          | none => exact .sent notFound plain (fine.mpr ⟨name, _, named, listed, by simp⟩)
          | some l =>
              have shown : (sendMessages (some l) : OnHttp Unit) s =
                  if (Doc.list (l.map .val)).isJson then
                    sendHttpResponseOk (.json (.list (l.map .val))) s
                  else .error .typeError s := Exec.ite_apply _ _ _ s
              rw [shown]
              by_cases json : (Doc.list (l.map .val)).isJson = true
              · rw [if_pos json]
                exact .sent _ plain (fine.mpr ⟨name, _, named, listed, by simpa using json⟩)
              · rw [if_neg json]
                refine .raised .typeError fun gettable => json ?_
                obtain ⟨name', messages, named', listed', shows⟩ := fine.mp gettable
                cases named.symm.trans named'
                cases listed.symm.trans listed'
                simpa using shows

variable (s) in
theorem root_gets : Gets (ascii "/") s (onGet (ascii "/") s) := by
  have other : ∀ path ∈ getPaths, startsWith (ascii "/") path = false := by decide +kernel
  have plain := waitOf_root
  have queue := other "/messages-in-queue/" (by decide)
  have exchange := other "/messages-in-exchange/" (by decide)
  have shows : onGet (ascii "/") s = if s.2.state.document.isJson then
      sendHttpResponseWithJsonBody 200 (.json s.2.state.document) s else .error .typeError s := by
    unfold onGet
    rw [if_pos rfl]
    exact Exec.ite_apply _ _ _ s
  rw [shows]
  by_cases json : s.2.state.document.isJson = true
  · rw [if_pos json]
    exact .sent _ plain ⟨⟨_, plain⟩, fun _ => json, fun no => (by rw [queue] at no; cases no),
      fun no => (by rw [exchange] at no; cases no)⟩
  · rw [if_neg json]
    exact .raised .typeError fun fine => json (fine.root rfl)

/-- A wait whose path ends in a delivery tag. -/
theorem gets_tag {w : Int → Wait}
    (waits : waitOf target = do return some (w (← readTag (← lastPart target))))
    (asks : onGet target =
      (do ensureFuture (w (← attempt (readTag (← attempt (lastPart target))))))) :
    Gets target s (onGet target s) := by
  refine gets_wait (x := do return w (← readTag (← lastPart target))) ?_ ?_
  · rw [waits]
    cases lastPart target with
    | error e => rfl
    | ok last =>
        simp only [bind, Except.bind]
        cases readTag last <;> rfl
  · rw [asks]
    cases lastPart target with
    | error e => rfl
    | ok last =>
        simp only [attempt_bind_ok]
        simp only [bind, Except.bind]
        cases readTag last <;> rfl

variable (target s) in
theorem onGet_gets : Gets target s (onGet target s) := by
  by_cases root : target = ascii "/"
  · subst root
    exact root_gets s
  by_cases login : startsWith target "/authentification-done-with-success-on/" = true
  · refine gets_wait (x := (lastPart target).map .authenticationPerformedOn) ?_ ?_
    · unfold waitOf
      rw [if_pos login]
      cases lastPart target <;> rfl
    · unfold onGet
      rw [if_neg root, if_pos login]
      cases lastPart target <;> rfl
  by_cases ack : startsWith target "/messages-acknowledged/" = true
  · refine gets_tag (w := .messageAcknowledged) ?_ ?_
    · unfold waitOf
      rw [if_neg login, if_pos ack]
    · unfold onGet
      rw [if_neg root, if_neg login, if_pos ack]
  by_cases nack : startsWith target "/messages-not-acknowledged/" = true
  · refine gets_tag (w := .messageNotAcknowledged) ?_ ?_
    · unfold waitOf
      rw [if_neg login, if_neg ack, if_pos nack]
    · unfold onGet
      rw [if_neg root, if_neg login, if_neg ack, if_pos nack]
  by_cases requeued : startsWith target "/messages-requeued/" = true
  · refine gets_tag (w := .messageRequeued) ?_ ?_
    · unfold waitOf
      rw [if_neg login, if_neg ack, if_neg nack, if_pos requeued]
    · unfold onGet
      rw [if_neg root, if_neg login, if_neg ack, if_neg nack, if_pos requeued]
  by_cases queue : startsWith target "/messages-in-queue/" = true
  · have exchange := getPaths_apart.other queue (q := "/messages-in-exchange/") (by decide)
      (by decide) (by decide)
    have plain : waitOf target = .ok none := waitOf_listing queue (.inl rfl)
    refine listing_gets (g := fun s => s.getMessagesOfQueue) plain ?_ ?_
    · exact ⟨fun fine => fine.queue queue, fun listable => ⟨⟨_, plain⟩, fun no => absurd no root,
        fun _ => listable, fun no => (by rw [exchange] at no; cases no)⟩⟩
    · unfold onGet
      rw [if_neg root, if_neg login, if_neg ack, if_neg nack, if_neg requeued, if_pos queue]
  by_cases exchange : startsWith target "/messages-in-exchange/" = true
  · have plain : waitOf target = .ok none := waitOf_listing exchange (.inr rfl)
    refine listing_gets (g := fun s => s.getMessagesOfExchange) plain ?_ ?_
    · exact ⟨fun fine => fine.exchange exchange, fun listable => ⟨⟨_, plain⟩,
        fun no => absurd no root, fun no => absurd no queue, fun _ => listable⟩⟩
    · unfold onGet
      rw [if_neg root, if_neg login, if_neg ack, if_neg nack, if_neg requeued, if_neg queue,
        if_pos exchange]
  by_cases bound : startsWith target "/queue-bound-to-exchange/" = true
  · by_cases named : ∃ a b queue exchange, splitSlash 3 target = [a, b, queue, exchange]
    · obtain ⟨a, b, q, e, parts⟩ := named
      refine gets_wait (x := do
        return .queueBound (← decodeUtf8 false q) (← decodeUtf8 false e)) ?_ ?_
      · unfold waitOf
        rw [if_neg login, if_neg ack, if_neg nack, if_neg requeued, if_pos bound, parts]
        dsimp only
        cases decodeUtf8 false q with
        | error x => rfl
        | ok q => cases decodeUtf8 false e <;> rfl
      · unfold onGet
        rw [if_neg root, if_neg login, if_neg ack, if_neg nack, if_neg requeued, if_neg queue,
          if_neg exchange, if_pos bound, parts]
        dsimp only
        cases decodeUtf8 false q with
        | error x => rfl
        | ok q => cases decodeUtf8 false e <;> rfl
    · refine gets_wait (x := .error .valueError) ?_ ?_
      · unfold waitOf
        rw [if_neg login, if_neg ack, if_neg nack, if_neg requeued, if_pos bound]
        split
        · next parts => exact absurd ⟨_, _, _, _, parts⟩ named
        · rfl
      · unfold onGet
        rw [if_neg root, if_neg login, if_neg ack, if_neg nack, if_neg requeued, if_neg queue,
          if_neg exchange, if_pos bound]
        split
        · next parts => exact absurd ⟨_, _, _, _, parts⟩ named
        · rfl
  · have plain : waitOf target = .ok none := waitOf_plain ⟨by simpa using login,
      by simpa using ack, by simpa using nack, by simpa using requeued, by simpa using bound⟩
    have shows : onGet target = sendHttpResponseNotFound := by
      unfold onGet
      rw [if_neg root, if_neg login, if_neg ack, if_neg nack, if_neg requeued, if_neg queue,
        if_neg exchange, if_neg bound]
    rw [shows]
    exact .sent _ plain ⟨⟨_, plain⟩, fun no => absurd no root, fun no => absurd no queue,
      fun no => absurd no exchange⟩

end

/-! ## DELETE, POST and PUT -/

/-- The place whose messages a DELETE removes can be read. -/
def Deletable (target : Bytes) : Prop :=
  startsWith target "/messages-in-queue/" = true ∨
    startsWith target "/messages-in-exchange/" = true → ∃ name, destination target = .ok name

/-- There is no consumer that a publication could be pushed to, nor one that has gone. -/
def Unserved (env : Env) (s : State) (endpoint : Endpoint) (name : Str) : Prop :=
  ∀ served ∈ endpoint.serving env s name,
    s.queues.contains served.1 = true ∧ s.consumersOf served.1 = []

/-- What a POST asks for can be read, and a message that it publishes can be written. -/
structure Postable (env : Env) (b : Broker) (target : Bytes) (headers : Headers) (data : Bytes) :
    Prop where
  message : ∀ endpoint : Endpoint, startsWith target endpoint.path = true →
    ∃ name pub, readRequest target headers data = .ok (name, pub) ∧
      (endpoint.declares b.state name = true →
        Succeeds env b endpoint name pub ∨ Unserved env b.state endpoint name)
  exchange : startsWith target "/create-exchange/" = true →
    ∃ name type, readExchange target = .ok (name, type)
  queue : startsWith target "/create-queue/" = true → ∃ name, destination target = .ok name

/-- A handler raises before it answers, or it ends with its answer. -/
inductive Handles (s : HttpProtocol × Broker) (fine : Prop) :
    EStateM.Result PyError (HttpProtocol × Broker) Unit → Prop
  | raised (e : PyError) (b : Broker) : ¬ fine → Handles s fine (.error e (s.1, b))
  | sent (r : Response) (b : Broker) : fine → Handles s fine (send r (s.1, b))

section
variable {env : Env} {target data : Bytes} {headers : Headers} {s : HttpProtocol × Broker}
variable {b : Broker} {endpoint : Endpoint} {name : Str} {pub : Publication}

/-- A name at the end of the target, and an operation on what it stands for. -/
theorem named_handles {fine : Prop} (readable : fine ↔ ∃ name, destination target = .ok name)
    {f : Str → State → State} {r : Response} {x : OnHttp Unit}
    (does : x = do
      let name ← attempt (decodeUtf8 false (← attempt (lastPart target)))
      onGlobalState (updateState (f name))
      send r) : Handles s fine (x s) := by
  subst does
  unfold destination at readable
  cases parts : lastPart target with
  | error e =>
      refine .raised e s.2 fun yes => ?_
      obtain ⟨name, no⟩ := readable.mp yes
      rw [parts] at no
      cases no
  | ok last =>
      have joined : (do decodeUtf8 false (← lastPart target)) = decodeUtf8 false last := by
        rw [parts]
        rfl
      rw [joined] at readable
      rw [attempt_bind_ok]
      cases decodes : decodeUtf8 false last with
      | error e =>
          refine .raised e s.2 fun yes => ?_
          obtain ⟨name, no⟩ := readable.mp yes
          cases decodes.symm.trans no
      | ok name => exact .sent r _ (readable.mpr ⟨name, decodes⟩)

variable (target s) in
theorem onDelete_handles : Handles s (Deletable target) (onDelete target s) := by
  unfold onDelete
  by_cases queue : startsWith target "/messages-in-queue/" = true
  · rw [if_pos queue]
    refine named_handles (f := fun name s => s.deleteMessagesOfQueue name) ?_ rfl
    exact ⟨fun yes => yes (.inl queue), fun named _ => named⟩
  by_cases exchange : startsWith target "/messages-in-exchange/" = true
  · rw [if_neg queue, if_pos exchange]
    refine named_handles (f := fun name s => s.deleteMessagesOfExchange name) ?_ rfl
    exact ⟨fun yes => yes (.inr exchange), fun named _ => named⟩
  · rw [if_neg queue, if_neg exchange]
    exact .sent notFound s.2 fun either => absurd either (by tauto)

/-- Serving a queue returns no tag exactly if it has no consumers. -/
theorem serveQueue_none_iff {n x : Str} {p : Publication} :
    (∃ t, serveQueue n p x b = .ok none t) ↔
      b.state.queues.contains n = true ∧ b.state.consumersOf n = [] := by
  cases hq : b.state.queues.get? n with
  | none =>
      have table : getConsumers n b = .error .keyError b := by simp only [getConsumers, hq]
      have raised : serveQueue n p x b = .error .keyError b := by
        simp only [serveQueue, bind_apply, table]
      simp [raised, OrderedDict.contains, hq]
  | some q =>
      have here := State.consumersOf_eq hq
      have served : Serves b n p x q.consumers.entries _ :=
        serveQueue_serves hq
      rw [here]
      generalize serveQueue n p x b = r at served
      have present : b.state.queues.contains n = true := by
        simp only [OrderedDict.contains, hq, Option.isSome_some]
      cases served with
      | nobody closing => cases q.consumers.entries <;> simp [Broker.lastTag, present]
      | unencoded split _ _ _ => simp [split]
      | pushed split _ _ _ _ => simp [split]
      | unsent split _ _ _ _ => simp [split]

/-- A publication to a declared destination returns no tag exactly if nobody is served. -/
theorem publish_none_iff (declared : endpoint.declares b.state name = true) :
    (∃ t, endpoint.publish env name pub b = .ok none t) ↔ Unserved env b.state endpoint name := by
  cases endpoint with
  | exchange =>
      obtain ⟨e, he⟩ := Option.isSome_iff_exists.mp declared
      have start : Endpoint.exchange.publish env name pub b = _ := publishMessage_declared he
      rw [start]
      unfold Unserved Endpoint.serving
      cases b.state.boundQueues env name with
      | nil => simp [serveBoundQueues]
      | cons queueName rest =>
          have same : (b.state.setExchange name
              { e with messages := e.messages ++ [pub.stored] }).consumersOf queueName =
              b.state.consumersOf queueName := State.consumersOf_setExchange _ _ _ _
          have queues : (b.state.setExchange name
              { e with messages := e.messages ++ [pub.stored] }).queues = b.state.queues := rfl
          have served := serveQueue_none_iff (b := { b with state := (b.state.setExchange name
              { e with messages := e.messages ++ [pub.stored] }) }) (n := queueName) (x := name)
              (p := pub)
          rw [same, queues] at served
          simpa [serveBoundQueues] using served
  | queue =>
      obtain ⟨q, hq⟩ := Option.isSome_iff_exists.mp declared
      have start : Endpoint.queue.publish env name pub b = _ := publishMessageInQueue_declared hq
      have same : (b.state.setQueue name
          { q with messages := q.messages ++ [pub.stored] }).consumersOf name =
          b.state.consumersOf name := by
        rw [State.consumersOf_setQueue, if_pos rfl, State.consumersOf_eq hq]
      have present : (b.state.setQueue name
          { q with messages := q.messages ++ [pub.stored] }).queues.contains name = true := by
        simp [State.setQueue, OrderedDict.contains]
      have here : b.state.queues.contains name = true := declared
      rw [start, serveQueue_none_iff, same]
      simp [Unserved, Endpoint.serving, present, here]

/-- The paths of the POST requests. -/
def postPaths : List String :=
  ["/add-message-on/", "/add-message-in-queue/", "/create-exchange/", "/create-queue/"]

theorem postPaths_apart : Apart postPaths := by
  unfold Apart
  decide +kernel

variable (env) in
/-- A message that is posted is answered exactly if it can be read and what it is published to
either succeeds or is not there. -/
theorem post_handles (asked : startsWith target endpoint.path = true) :
    Handles s (∃ name pub, readRequest target headers data = .ok (name, pub) ∧
        (endpoint.declares s.2.state name = true →
          Succeeds env s.2 endpoint name pub ∨ Unserved env s.2.state endpoint name))
      (onPost env target data headers s) := by
  rw [onPost_message asked, onGlobalState_send, addMessageResponse_apply]
  cases read : readRequest target headers data with
  | error e =>
      refine .raised e s.2 ?_
      rintro ⟨name, pub, no, _⟩
      cases no
  | ok message =>
      obtain ⟨name, pub⟩ := message
      dsimp only
      cases published : endpoint.publish env name pub s.2 with
      | ok tag t =>
          refine .sent (publicationResponse tag) t ⟨name, pub, rfl, fun declared => ?_⟩
          cases tag with
          | some tag => exact .inl ((publish_tag_iff declared).mp ⟨tag, t, published⟩)
          | none => exact .inr ((publish_none_iff declared).mp ⟨t, published⟩)
      | error e t =>
          refine .raised e t ?_
          rintro ⟨name', pub', same, answers⟩
          cases same
          cases declared : endpoint.declares s.2.state name with
          | false => cases (publish_undeclared declared).symm.trans published
          | true =>
              rcases answers declared with succeeds | unserved
              · obtain ⟨tag, t', returned⟩ := (publish_tag_iff declared).mpr succeeds
                cases returned.symm.trans published
              · obtain ⟨t', returned⟩ := (publish_none_iff declared).mpr unserved
                cases returned.symm.trans published

variable (env target headers data s) in
theorem onPost_handles :
    Handles s (Postable env s.2 target headers data) (onPost env target data headers s) := by
  by_cases posted : ∃ endpoint : Endpoint, startsWith target endpoint.path = true
  · obtain ⟨endpoint, asked⟩ := posted
    have member : endpoint.path ∈ postPaths := by cases endpoint <;> decide
    have exchange := postPaths_apart.other asked member (q := "/create-exchange/") (by decide)
      (by cases endpoint <;> decide)
    have queue := postPaths_apart.other asked member (q := "/create-queue/") (by decide)
      (by cases endpoint <;> decide)
    have only : ∀ other : Endpoint, startsWith target other.path = true → other = endpoint := by
      intro other also
      by_contra apart
      have no := postPaths_apart.other asked member (q := other.path) (by cases other <;> decide)
        (by cases endpoint <;> cases other <;> first | exact absurd rfl apart | decide)
      rw [also] at no
      cases no
    have fine : Postable env s.2 target headers data ↔
        ∃ name pub, readRequest target headers data = .ok (name, pub) ∧
          (endpoint.declares s.2.state name = true →
            Succeeds env s.2 endpoint name pub ∨ Unserved env s.2.state endpoint name) := by
      constructor
      · exact fun all => all.message endpoint asked
      · refine fun one => ⟨fun other also => ?_, fun no => ?_, fun no => ?_⟩
        · rw [only other also]
          exact one
        · rw [exchange] at no
          cases no
        · rw [queue] at no
          cases no
    rw [fine]
    exact post_handles env asked
  · have none : ∀ endpoint : Endpoint, ¬ startsWith target endpoint.path = true :=
      fun endpoint asked => posted ⟨endpoint, asked⟩
    have onExchange : ¬ startsWith target "/add-message-on/" = true := none .exchange
    have inQueue : ¬ startsWith target "/add-message-in-queue/" = true := none .queue
    by_cases exchange : startsWith target "/create-exchange/" = true
    · have queue := postPaths_apart.other exchange (q := "/create-queue/") (by decide) (by decide)
        (by decide)
      rw [onPost_createExchange exchange, onGlobalState_send, createExchangeResponse_apply]
      cases read : readExchange target with
      | error e =>
          refine .raised e s.2 fun fine => ?_
          obtain ⟨name, type, no⟩ := fine.exchange exchange
          cases read.symm.trans no
      | ok parts =>
          obtain ⟨name, type⟩ := parts
          exact .sent _ _ ⟨fun endpoint asked => absurd asked (none endpoint),
            fun _ => ⟨name, type, read⟩, fun no => (by rw [queue] at no; cases no)⟩
    by_cases queue : startsWith target "/create-queue/" = true
    · unfold onPost
      rw [if_neg onExchange, if_neg inQueue, if_neg exchange, if_pos queue]
      refine named_handles (f := fun name s => (s.declareQueue name).2) ?_ rfl
      exact ⟨fun fine => fine.queue queue, fun named => ⟨fun endpoint asked =>
        absurd asked (none endpoint), fun no => absurd no exchange, fun _ => named⟩⟩
    · unfold onPost
      rw [if_neg onExchange, if_neg inQueue, if_neg exchange, if_neg queue]
      exact .sent notFound s.2 ⟨fun endpoint asked => absurd asked (none endpoint),
        fun no => absurd no exchange, fun no => absurd no queue⟩

end

end Http
end MockAmqp
