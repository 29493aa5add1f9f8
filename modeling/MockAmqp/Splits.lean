import MockAmqp.Prefixes
import MockAmqp.Publications

/-!
# How the body of a POST is cut

Where a body is cut is up to the network, and each piece is posted as if it were the body. This
makes no difference to what is published only in the cases that are told apart here.
-/

namespace MockAmqp
namespace Http
open Exec

/-- A piece of a body that is a message. -/
def Readable (target : Bytes) (headers : Headers) (data : Bytes) : Prop :=
  ∃ message, readRequest target headers data = .ok message

/-- The request says that its body is binary. -/
def OctetStream (headers : Headers) : Prop :=
  (ascii "content-type", ascii "application/octet-stream") ∈ headers

/-- The same state, and the same bytes sent to every connection. -/
def SameEffect (b b' : Broker) : Prop :=
  b.state = b'.state ∧
    ∀ c, (b.trackers c).transport.written = (b'.trackers c).transport.written

section
variable {target data first rest : Bytes} {headers : Headers}

theorem keepHeaders_flag {has found : Bool} {kept last : List (Str × Val)}
    (keeps : keepHeaders headers has kept = .ok (found, last)) :
    found = true ↔ has = true ∨ OctetStream headers := by
  induction headers generalizing has kept with
  | nil =>
      cases keeps
      simp [OctetStream]
  | cons p others ih =>
      obtain ⟨type, value⟩ := p
      unfold keepHeaders at keeps
      split at keeps
      · next binary =>
          obtain ⟨rfl, rfl⟩ := binary
          rw [ih keeps]
          simp [OctetStream]
      · next other =>
          have apart : OctetStream ((type, value) :: others) ↔ OctetStream others := by
            unfold OctetStream
            rw [List.mem_cons, or_iff_right]
            intro same
            cases same
            exact other ⟨rfl, rfl⟩
          rw [apart]
          split at keeps
          · obtain ⟨decoded, _, keeps⟩ := except_bind_eq_ok.mp keeps
            obtain ⟨name, _, keeps⟩ := except_bind_eq_ok.mp keeps
            exact ih keeps
          · exact ih keeps

/-- What is read depends on the body through `_build_message` only. -/
theorem readRequest_congr {other : Bytes} (same : buildMessage data headers = buildMessage other headers) :
    readRequest target headers data = readRequest target headers other := by
  unfold readRequest readPublication
  rw [same]

/-- Only a dictionary is read as a message. -/
theorem Readable.built (readable : Readable target headers data) :
    ∃ entries, buildMessage data headers = .ok (.dict entries) := by
  obtain ⟨message, read⟩ := readable
  unfold readRequest at read
  obtain ⟨last, _, read⟩ := except_bind_eq_ok.mp read
  unfold readPublication at read
  obtain ⟨full, built, read⟩ := except_bind_eq_ok.mp read
  obtain ⟨name, _, read⟩ := except_bind_eq_ok.mp read
  obtain ⟨described, found, read⟩ := except_bind_eq_ok.mp read
  cases full with
  | dict entries => exact ⟨entries, built⟩
  | _ => cases found

/-- What the headers of a message that can be read are kept as. -/
theorem Readable.kept (readable : Readable target headers data) :
    ∃ found kept, keepHeaders headers false [] = .ok (found, kept) := by
  obtain ⟨entries, built⟩ := readable.built
  unfold buildMessage at built
  obtain ⟨⟨found, kept⟩, keeps, _⟩ := except_bind_eq_ok.mp built
  exact ⟨found, kept, keeps⟩

theorem readPublication_binary {last : Bytes} {kept : List (Str × Val)} {name : Str}
    (keeps : keepHeaders headers false [] = .ok (true, kept))
    (decodes : decodeUtf8 false last = .ok name) (data : Bytes) :
    readPublication last data headers =
      .ok (name, { headers := .dict kept, messageData := .bytes data, isBinary := true }) := by
  have built : buildMessage data headers = .ok (.dict [(str "body", .bytes data),
      (str "headers", .dict kept), (str "binary", .bool true)]) := by
    unfold buildMessage
    rw [keeps]
    rfl
  unfold readPublication
  rw [built, decodes]
  rfl

/-- Any piece of a binary body is a message as it stands. -/
theorem readable_binary (binary : OctetStream headers) (readable : Readable target headers first) :
    ∃ name described, ∀ data, readRequest target headers data =
      .ok (name, { headers := described, messageData := .bytes data, isBinary := true }) := by
  obtain ⟨found, kept, keeps⟩ := readable.kept
  have flagged : found = true := (keepHeaders_flag keeps).mpr (.inr binary)
  subst flagged
  obtain ⟨⟨name, pub⟩, read⟩ := readable
  have named := readRequest_name read
  unfold destination at named
  obtain ⟨last, parts, decodes⟩ := except_bind_eq_ok.mp named
  refine ⟨name, .dict kept, fun data => ?_⟩
  unfold readRequest
  rw [parts]
  exact readPublication_binary keeps decodes data

theorem buildMessage_text {kept : List (Str × Val)}
    (keeps : keepHeaders headers false [] = .ok (false, kept)) (data : Bytes) :
    buildMessage data headers = decodeUtf8 false data >>= jsonLoads := by
  unfold buildMessage
  rw [keeps]
  rfl

/-- The rest of a text whose beginning is a message, and so is the whole, is blank. -/
theorem readable_text (text : ¬ OctetStream headers) (readable : Readable target headers first)
    (whole : Readable target headers (first ++ rest)) :
    readRequest target headers (first ++ rest) = readRequest target headers first ∧
      ∀ piece, (∀ x ∈ piece, x ∈ rest) → ¬ Readable target headers piece := by
  obtain ⟨found, kept, keeps⟩ := readable.kept
  have flagged : found = false := by
    cases found with
    | false => rfl
    | true => simpa [text] using keepHeaders_flag keeps
  subst flagged
  obtain ⟨entries, built⟩ := readable.built
  obtain ⟨entries', built'⟩ := whole.built
  rw [buildMessage_text keeps] at built built'
  obtain ⟨s, decoded, loaded⟩ := except_bind_eq_ok.mp built
  rw [decodeUtf8_append decoded] at built'
  obtain ⟨u, decoded', loaded'⟩ := except_bind_eq_ok.mp built'
  cases behind : decodeUtf8 false rest with
  | error e =>
      rw [behind] at decoded'
      cases decoded'
  | ok t =>
      rw [behind] at decoded'
      cases decoded'
      obtain ⟨same, blank⟩ := jsonLoads_append loaded loaded'
      constructor
      · apply readRequest_congr
        rw [buildMessage_text keeps, buildMessage_text keeps, decodeUtf8_append decoded, behind,
          decoded]
        exact loaded'.trans (same ▸ loaded.symm)
      · intro piece inside readable
        obtain ⟨entries, built⟩ := readable.built
        have low := ascii_of_decoded behind fun c mem => Json.blank_low (blank c mem)
        have ascii := decodeUtf8_ascii false low
        rw [ascii] at behind
        cases behind
        rw [buildMessage_text keeps, decodeUtf8_ascii false fun x mem => low x (inside x mem)] at built
        have blanks : ∀ c ∈ piece.map fun x => Fin.ofNat _ x.toNat, Json.isBlank c = true := by
          intro c mem
          obtain ⟨x, mem', rfl⟩ := List.mem_map.mp mem
          exact blank _ (List.mem_map_of_mem (inside x mem'))
        cases (jsonLoads_blank blanks).symm.trans built

/-! ## The effect of a POST -/

variable {env : Env} {b : Broker} {endpoint : Endpoint} {later : List Bytes} {name : Str}
variable {pub : Publication} {actions single : List Action}

/-- The effect of a POST is that of its first piece, when no later piece can be read. -/
theorem posted_first (env : Env) (b : Broker) (endpoint : Endpoint) (first : Bytes) {done : List Bytes}
    (unread : ∀ piece ∈ done, ¬ Readable target headers piece) :
    posted (endpoint.post env target headers) b (first :: done) =
      after (endpoint.post env target headers first) b := by
  have idle : posted (endpoint.post env target headers)
      (after (endpoint.post env target headers first) b) done =
      after (endpoint.post env target headers first) b := by
    apply posted_idle
    intro piece mem name pub read
    exact absurd ⟨_, read⟩ (unread piece mem)
  exact idle

theorem storedBy_unread (unread : ¬ Readable target headers data) :
    storedBy target headers data = [] := by
  unfold storedBy
  split
  · next read => exact absurd ⟨_, read⟩ unread
  · rfl

theorem SameEffect.messages {b b' : Broker} (same : SameEffect b b') (endpoint : Endpoint)
    (name : Str) : endpoint.messages b.state name = endpoint.messages b'.state name := by
  rw [same.1]

/-- The messages that two ways of posting store at the destination. -/
theorem SameEffect.stored {pieces pieces' : List Bytes} (named : destination target = .ok name)
    (declared : endpoint.declares b.state name = true)
    (same : SameEffect (posted (endpoint.post env target headers) b pieces)
      (posted (endpoint.post env target headers) b pieces')) :
    pieces.flatMap (storedBy target headers) = pieces'.flatMap (storedBy target headers) := by
  have messages := same.messages endpoint name
  rw [posted_messages named declared, posted_messages named declared] at messages
  exact List.append_cancel_left messages

theorem storedBy_read (read : readRequest target headers data = .ok (name, pub)) :
    storedBy target headers data = [pub.stored] := by
  unfold storedBy
  rw [read]

/-- Binary data that is stored whole has not been cut. -/
theorem uncut_of_stored (filled : ∀ piece ∈ later, piece ≠ []) {done : List Bytes}
    (binary : OctetStream headers) (readable : Readable target headers first)
    (stored : (first :: done).flatMap (storedBy target headers) =
      [(first :: later).flatten].flatMap (storedBy target headers)) : later = [] := by
  obtain ⟨name, described, read⟩ := readable_binary binary readable
  rw [List.flatMap_cons, List.flatMap_cons, storedBy_read (read first), storedBy_read (read _)] at stored
  have head := (List.cons.inj stored).1
  unfold Publication.stored at head
  injection head with _ same
  injection same with bytes
  rw [List.flatten_cons] at bytes
  have nothing : later.flatten = [] := List.self_eq_append_right.mp bytes
  cases later with
  | nil => rfl
  | cons piece others =>
      have empty := List.flatten_eq_nil_iff.mp nothing piece List.mem_cons_self
      exact absurd empty (filled piece List.mem_cons_self)

/-- Where a body is cut makes no difference exactly if it is not cut, if its destination is not
declared, if neither its first piece nor the whole is a message, or if both are, and not as
binary data. -/
theorem cut_immaterial_iff (env : Env) (refuses : Option PyError) (b : Broker)
    (endpoint : Endpoint) (asked : startsWith target endpoint.path = true)
    (carries : Carries actions (ascii "POST") target headers (first :: later))
    (filled : ∀ piece ∈ first :: later, piece ≠ [])
    (uncut : Carries single (ascii "POST") target headers [(first :: later).flatten]) :
    SameEffect (Runs.run (step env refuses) (HttpProtocol.init, b) actions).2
        (Runs.run (step env refuses) (HttpProtocol.init, b) single).2 ↔
      later = [] ∨
      (∀ name, destination target = .ok name → endpoint.declares b.state name = false) ∨
      (¬ Readable target headers first ∧ ¬ Readable target headers (first :: later).flatten) ∨
      (Readable target headers first ∧ Readable target headers (first :: later).flatten ∧
        ¬ OctetStream headers) := by
  have posts : ∀ p, onPost env target p headers =
      onGlobalState (endpoint.post env target headers p) >>= send := fun p => onPost_message asked
  obtain ⟨done, sofar, broker, outcome⟩ := post_session refuses posts b carries
  obtain ⟨done', sofar', broker', _⟩ := post_session refuses posts b uncut
  cases List.prefix_nil.mp sofar'
  rw [broker, broker']
  have halted : ¬ Readable target headers first → done = [] := by
    intro unread
    rcases outcome with ⟨r, t, returned, _⟩ | ⟨_, _, _, _, none, _⟩
    · cases read : readRequest target headers first with
      | error e => cases (post_unread read).symm.trans returned
      | ok message => exact absurd ⟨message, read⟩ unread
    · exact none
  constructor
  · intro same
    by_contra differs
    simp only [not_or, not_and_or, not_not] at differs
    obtain ⟨cut, destined, first', whole'⟩ := differs
    push Not at destined
    obtain ⟨name, named, declared⟩ := destined
    have stored := same.stored named (by simpa using declared)
    rcases Classical.em (Readable target headers first) with readable | unread
    · rcases whole' with no | no | binary
      · exact no readable
      · obtain ⟨⟨name, pub⟩, read⟩ := readable
        rw [List.flatMap_cons, List.flatMap_cons, storedBy_read read, storedBy_unread no] at stored
        cases stored
      · exact cut (uncut_of_stored (fun p mem => filled p (List.mem_cons_of_mem _ mem)) binary
          readable stored)
    · rcases first' with readable | ⟨⟨name, pub⟩, read⟩
      · exact unread readable
      · rw [halted unread, List.flatMap_cons, List.flatMap_cons, storedBy_read read,
          storedBy_unread unread] at stored
        cases stored
  · rintro (rfl | undeclared | ⟨unread, unread'⟩ | ⟨readable, whole, text⟩)
    · cases List.prefix_nil.mp sofar
      rw [List.flatten_cons, List.flatten_nil, List.append_nil]
      exact ⟨rfl, fun _ => rfl⟩
    · have idle : ∀ pieces, posted (endpoint.post env target headers) b pieces = b := fun pieces =>
        posted_idle pieces fun piece _ name pub read => undeclared name (readRequest_name read)
      rw [idle, idle]
      exact ⟨rfl, fun _ => rfl⟩
    · have idle : ∀ piece, ¬ Readable target headers piece →
          posted (endpoint.post env target headers) b [piece] = b := by
        intro piece no
        refine posted_idle _ fun piece' mem name pub read => ?_
        cases List.mem_singleton.mp mem
        exact absurd ⟨_, read⟩ no
      rw [halted unread, idle _ unread, idle _ unread']
      exact ⟨rfl, fun _ => rfl⟩
    · rw [List.flatten_cons] at whole ⊢
      obtain ⟨read, blank⟩ := readable_text text readable whole
      have unread : ∀ piece ∈ done, ¬ Readable target headers piece := fun piece mem =>
        blank piece fun x inside => List.mem_flatten.mpr ⟨piece, sofar.subset mem, inside⟩
      obtain ⟨⟨name, pub⟩, message⟩ := readable
      have single : posted (endpoint.post env target headers) b [first ++ later.flatten] =
          after (endpoint.post env target headers (first ++ later.flatten)) b :=
        posted_first env b endpoint _ (by simp)
      rw [posted_first env b endpoint first unread, single, after_post message,
        after_post (read.trans message)]
      exact ⟨rfl, fun _ => rfl⟩

end

/-- The same two bytes for queue `q`, in two pieces that come one after the other. -/
def postHiCut : List Action :=
  [arrival [.request (ascii "POST") (ascii "/add-message-in-queue/q") octetStream,
    .data (ascii "h")], arrival [.data (ascii "i"), .endOfMessage]]

theorem postHiCut_carries :
    Carries postHiCut (ascii "POST") (ascii "/add-message-in-queue/q") octetStream
      [ascii "h", ascii "i"] where
  events := by
    rw [postHiCut, arrival, arrival, incoming, incoming, incoming, List.append_nil]
    rfl
  alone := by simp [Alone, postHiCut, arrival]

/-- Without the queue it does not matter how the message comes. -/
theorem cut_immaterial_without_queue :
    SameEffect (Runs.run (step guestEnv none) (HttpProtocol.init, (session []).broker) postHiCut).2
      (Runs.run (step guestEnv none) (HttpProtocol.init, (session []).broker) postHi).2 := by
  refine (cut_immaterial_iff guestEnv none (session []).broker .queue (by decide)
    postHiCut_carries (by decide) postHi_carries).mpr (.inr (.inl ?_))
  intro name named
  have q : destination (ascii "/add-message-in-queue/q") = .ok (str "q") := by decide +kernel
  cases q.symm.trans named
  decide +kernel

/-- The queue gets two messages of one byte instead of one of two. -/
theorem cut_message_published_twice :
    let b := (session [.http (.declareQueue (str "q"))]).broker
    Reachable guestEnv b ∧
      Carries postHiCut (ascii "POST") (ascii "/add-message-in-queue/q") octetStream
        [ascii "h", ascii "i"] ∧
      Carries postHi (ascii "POST") (ascii "/add-message-in-queue/q") octetStream [ascii "hi"] ∧
      ¬ SameEffect (Runs.run (step guestEnv none) (HttpProtocol.init, b) postHiCut).2
        (Runs.run (step guestEnv none) (HttpProtocol.init, b) postHi).2 := by
  refine ⟨session_reachable _, postHiCut_carries, postHi_carries, fun same => ?_⟩
  have messages := congrArg (fun s => (State.messagesIn s (str "q")).length) same.1
  revert messages
  decide +kernel

end Http
end MockAmqp
