import MockAmqp.Supplied

/-!
# What a consumer gets of a posted message

The header and the body that are read back from the frames of a push, compared with what has been
posted.
-/

namespace MockAmqp
open Exec

/-! ## Descriptions that are no dictionaries -/

/-- The entries of a dictionary. -/
def Val.entries : Val → List (Str × Val)
  | .dict entries => entries
  | _ => []

theorem Val.Loaded.entries {v : Val} (loaded : v.Loaded) : ∀ p ∈ v.entries, p.2.Loaded := by
  cases loaded with
  | dict all _ => exact all
  | _ => simp [Val.entries]

/-- No property is found in what is no dictionary. -/
theorem collectProperties_stray {v : Val} (stray : ∀ entries, v ≠ .dict entries)
    {table : List (Str × Char × Nat)} {found : Nat × List Char × List Val}
    (collected : collectProperties v table = .ok found) : found = (0, [], []) := by
  have refused : ∀ name, v.subscript name = .error .typeError := by
    intro name
    cases v with
    | dict entries => exact absurd rfl (stray entries)
    | _ => rfl
  induction table with
  | nil =>
      cases collected
      rfl
  | cons p table ih =>
      rw [collectProperties] at collected
      obtain ⟨there, _, collected⟩ := except_bind_eq_ok.mp collected
      cases there with
      | true =>
          obtain ⟨_, value, _⟩ := except_bind_eq_ok.mp collected
          cases (refused p.1).symm.trans value
      | false => exact ih collected

theorem collectProperties_nothing (table : List (Str × Char × Nat)) :
    collectProperties (.dict []) table = .ok (0, [], []) := by
  induction table with
  | nil => rfl
  | cons p table ih => exact ih

theorem headerArguments_entries {v : Val} {bodySize : Nat} {b : Bytes}
    (encoded : headerArguments v bodySize = .ok b) :
    headerArguments (.dict v.entries) bodySize = .ok b := by
  by_cases described : ∃ entries, v = .dict entries
  · obtain ⟨entries, rfl⟩ := described
    exact encoded
  · have stray : ∀ entries, v ≠ .dict entries := fun entries same => described ⟨entries, same⟩
    have nothing : v.entries = [] := by
      cases v with
      | dict entries => exact absurd rfl (stray entries)
      | _ => rfl
    obtain ⟨found, collected, _⟩ := except_bind_eq_ok.mp encoded
    have none := collectProperties_stray stray collected
    subst none
    rw [headerArguments_collected collected] at encoded
    rw [nothing, headerArguments_collected (collectProperties_nothing PROPERTIES)]
    exact encoded

/-! ## Deliveries -/

/-- A stream that begins with a delivery, whose header and body are read back like this. -/
def BeginsDelivery (stream : Bytes) (h : Header) (content : Bytes) : Prop :=
  ∃ (deliver header body : RawFrame) (rest : Bytes) (read : Body), deliver.frameType = 1 ∧
    stream = deliver.bytes ++ (header.bytes ++ (body.bytes ++ rest)) ∧
    readFrame (header.bytes ++ (body.bytes ++ rest)) = .ok (some (.header h)) ∧
    readFrame (body.bytes ++ rest) = .ok (some (.body read)) ∧ read.content = content

/-- There is one way to read it. -/
theorem BeginsDelivery.unique {stream : Bytes} {h h' : Header} {content content' : Bytes}
    (begins : BeginsDelivery stream h content) (begins' : BeginsDelivery stream h' content') :
    h = h' ∧ content = content' := by
  obtain ⟨deliver, header, body, rest, read, _, same, first, second, rfl⟩ := begins
  obtain ⟨deliver', header', body', rest', read', _, same', first', second', rfl⟩ := begins'
  obtain ⟨_, behind⟩ := RawFrame.bytes_append_inj (same.symm.trans same')
  rw [behind] at first
  cases first.symm.trans first'
  obtain ⟨_, last⟩ := RawFrame.bytes_append_inj behind
  rw [last] at second
  cases second.symm.trans second'
  exact ⟨rfl, rfl⟩

/-- What a push writes is a delivery of the payload, and of the properties as the encoder has
accepted them. -/
theorem Push.send_delivers {p : Push} (loaded : p.headers.Loaded) (delivers : p.delivers = true)
    (encodes : p.encodes = true) : ∃ new h content, (∀ t, p.send t = .ok () (t.put new)) ∧
      (∀ rest, BeginsDelivery (new ++ rest) h content) ∧ p.message = .bytes content ∧
      Accepted p.headers.entries ∧
      ∀ name, h.properties.get? name = (writtenEntries p.headers.entries).lookup name := by
  obtain ⟨deliver, method, sent⟩ := Push.deliver_whole.1 delivers
  have small := Push.delivers_channel delivers
  obtain ⟨data, arguments, bytes, fits, encoded, fits'⟩ := Push.encodes_iff.mp encodes
  have number : (UInt16.ofNat p.channelNumber).toNat = p.channelNumber := by
    rw [UInt16.toNat_ofNat']
    omega
  have described := headerArguments_entries encoded
  have size : data.length < 2 ^ 64 := by omega
  obtain ⟨h, decodes, read⟩ : ∃ h, decodePayload 2 p.channelNumber (arguments.length + 8) arguments =
      .ok (some (.header h)) ∧
      ∀ name, h.properties.get? name = (writtenEntries p.headers.entries).lookup name :=
    header_written loaded.entries described size
  have header : (smallFrame 2 p.channelNumber arguments fits').Decodes (.header h) := by
    rw [RawFrame.Decodes, smallFrame, number]
    exact decodes
  have body : (smallFrame 3 p.channelNumber data fits).Decodes
      (.body ⟨p.channelNumber, data.length + 8, data⟩) := by
    rw [RawFrame.Decodes, smallFrame, number]
    rfl
  refine ⟨deliver.bytes ++ ((smallFrame 2 p.channelNumber arguments fits').bytes ++
    (smallFrame 3 p.channelNumber data fits).bytes), h, data, fun t => ?_, fun rest => ?_, bytes,
    accepted_of_written loaded.entries described, read⟩
  · rw [p.send_eq, bind_ok (sent t), Push.content_sent small bytes fits encoded fits',
      Transport.put_put]
  · refine ⟨deliver, _, _, rest, _, method, ?_, RawFrame.readFrame_whole _ header _,
      RawFrame.readFrame_whole _ body _, rfl⟩
    rw [List.append_assoc, List.append_assoc]

namespace Http

/-! ## Messages -/

/-- The body is the JSON text of a message. -/
def IsMessage (data : Bytes) (message : List (Str × Val)) : Prop :=
  (decodeUtf8 false data >>= jsonLoads) = .ok (.dict message)

section
variable {headers : Headers} {target data first rest last : Bytes} {name : Str} {pub : Publication}

/-- The beginning of a message that is one already is the same message. -/
theorem IsMessage.beginning {message message' : List (Str × Val)} (begun : IsMessage first message)
    (whole : IsMessage (first ++ rest) message') : message' = message := by
  obtain ⟨s, decoded, loaded⟩ := except_bind_eq_ok.mp begun
  obtain ⟨u, decoded', loaded'⟩ := except_bind_eq_ok.mp whole
  rw [decodeUtf8_append decoded] at decoded'
  cases behind : decodeUtf8 false rest with
  | error e =>
      rw [behind] at decoded'
      cases decoded'
  | ok t =>
      rw [behind] at decoded'
      cases decoded'
      cases (jsonLoads_append loaded loaded').1
      rfl

/-- What is published of a binary body. -/
theorem read_binary (binary : OctetStream headers)
    (read : readRequest target headers data = .ok (name, pub)) :
    ∃ kept, keepHeaders headers false [] = .ok (true, kept) ∧ pub.headers = .dict kept ∧
      pub.messageData = .bytes data ∧ pub.isBinary = true := by
  have readable : Readable target headers data := ⟨_, read⟩
  obtain ⟨found, kept, keeps⟩ := readable.kept
  have flagged : found = true := (keepHeaders_flag keeps).mpr (.inr binary)
  subst flagged
  unfold readRequest at read
  obtain ⟨last, _, read⟩ := except_bind_eq_ok.mp read
  cases decodes : decodeUtf8 false last with
  | error e =>
      unfold readPublication at read
      obtain ⟨_, _, read⟩ := except_bind_eq_ok.mp read
      obtain ⟨_, decoded, _⟩ := except_bind_eq_ok.mp read
      cases decodes.symm.trans decoded
  | ok n =>
      rw [readPublication_binary keeps decodes] at read
      cases read
      exact ⟨kept, keeps, rfl, rfl, rfl⟩

theorem subscript_dict {entries : List (Str × Val)} {n : Str} {v : Val}
    (subscripted : (Val.dict entries).subscript n = .ok v) : entries.lookup n = some v := by
  rw [Val.subscript] at subscripted
  cases found : entries.lookup n with
  | none =>
      rw [found] at subscripted
      cases subscripted
  | some w =>
      rw [found] at subscripted
      cases subscripted
      rfl

/-- What is published of a JSON text. -/
theorem read_text (text : ¬ OctetStream headers)
    (read : readRequest target headers data = .ok (name, pub)) :
    ∃ message, IsMessage data message ∧ message.lookup (str "headers") = some pub.headers ∧
      message.lookup (str "body") = some pub.messageData := by
  have readable : Readable target headers data := ⟨_, read⟩
  obtain ⟨found, kept, keeps⟩ := readable.kept
  have flagged : found = false := by
    cases found with
    | false => rfl
    | true => simpa [text] using keepHeaders_flag keeps
  subst flagged
  unfold readRequest readPublication at read
  obtain ⟨last, _, read⟩ := except_bind_eq_ok.mp read
  obtain ⟨full, built, read⟩ := except_bind_eq_ok.mp read
  obtain ⟨_, _, read⟩ := except_bind_eq_ok.mp read
  obtain ⟨described, found, read⟩ := except_bind_eq_ok.mp read
  obtain ⟨content, found', read⟩ := except_bind_eq_ok.mp read
  obtain ⟨_, _, read⟩ := except_bind_eq_ok.mp read
  cases read
  cases full with
  | dict message =>
      rw [buildMessage_text keeps] at built
      exact ⟨message, built, subscript_dict found, subscript_dict found'⟩
  | _ => cases found

/-- The headers of a publication are values of JSON. -/
theorem read_loaded (read : readRequest target headers data = .ok (name, pub)) :
    pub.headers.Loaded := by
  by_cases binary : OctetStream headers
  · obtain ⟨kept, keeps, described, _⟩ := read_binary binary read
    rw [described]
    exact keepHeaders_loaded keeps (.dict (by simp) (by simp))
  · obtain ⟨message, posted, found, _⟩ := read_text binary read
    obtain ⟨s, _, loaded⟩ := except_bind_eq_ok.mp posted
    obtain ⟨_, _, split, _⟩ := List.lookup_eq_some_iff.mp found
    exact (jsonLoads_loaded loaded).entries (str "headers", pub.headers) (by simp [Val.entries, split])

/-! ## The push of a POST -/

variable {env : Env} {b : Broker} {endpoint : Endpoint} {queueName exchangeName : Str} {p : Push}

theorem nextPush_publication (next : b.nextPush queueName pub exchangeName = some p) :
    p.headers = pub.headers ∧ pub.payload = .ok p.message := by
  unfold Broker.nextPush at next
  dsimp only at next
  split at next
  · next payload =>
      cases next
      exact ⟨rfl, payload⟩
  · cases next

/-- A push is begun for a declared destination that is served. -/
theorem pushing_served (pushing : (Turn.http (endpoint.operation name pub)).pushing env b = some p) :
    endpoint.declares b.state name = true ∧
      ∃ served, endpoint.serving env b.state name = some served ∧
        b.nextPush served.1 pub served.2 = some p := by
  cases endpoint with
  | exchange =>
      simp only [Endpoint.operation, Turn.pushing] at pushing
      split at pushing
      · next declared =>
          refine ⟨declared, ?_⟩
          unfold Endpoint.serving
          split at pushing
          · cases pushing
          · next queueName _ bound =>
              rw [bound]
              exact ⟨_, rfl, pushing⟩
      · cases pushing
  | queue =>
      simp only [Endpoint.operation, Turn.pushing] at pushing
      split at pushing
      · next declared => exact ⟨declared, _, rfl, pushing⟩
      · cases pushing

/-- A publication that succeeds has written its push. -/
theorem pushing_succeeds (pushing : (Turn.http (endpoint.operation name pub)).pushing env b = some p)
    (succeeds : Succeeds env b endpoint name pub) : p.delivers = true ∧ p.encodes = true := by
  obtain ⟨_, served, serving, next⟩ := pushing_served pushing
  obtain ⟨served', serving', canServe⟩ := succeeds
  cases serving.symm.trans serving'
  rcases canServe with ⟨_, closing⟩ | ⟨p', next', sendable⟩
  · cases (Broker.nextPush_dead closing).symm.trans next
  · cases next.symm.trans next'
    exact sendable

theorem publish_step (env : Env) (b : Broker) (endpoint : Endpoint) (name : Str) (pub : Publication) :
    Turn.step env b (.http (endpoint.operation name pub)) = after (endpoint.publish env name pub) b := by
  cases endpoint with
  | exchange => exact after_bind_pure _ _ b
  | queue => exact after_bind_pure _ _ b

/-- A piece that is posted only adds to what has been written. -/
theorem posted_piece (env : Env) (b : Broker) (endpoint : Endpoint) (target : Bytes)
    (headers : Headers) (piece : Bytes) (c : ConnId) : (b.trackers c).transport.written <+:
      ((after (endpoint.post env target headers piece) b).trackers c).transport.written := by
  cases read : readRequest target headers piece with
  | error e =>
      rw [after_error (post_unread read)]
  | ok message =>
      obtain ⟨name, pub⟩ := message
      rw [after_post read, ← publish_step]
      have just := http_pushesJust env b (endpoint.operation name pub)
      rcases just.written c with same | ⟨p, made, rfl⟩
      · rw [same]
      · rw [just.sent p made]
        exact (p.send_within _).1

theorem posted_written (env : Env) (b : Broker) (endpoint : Endpoint) (target : Bytes)
    (headers : Headers) (pieces : List Bytes) (c : ConnId) : (b.trackers c).transport.written <+:
      ((posted (endpoint.post env target headers) b pieces).trackers c).transport.written := by
  induction pieces generalizing b with
  | nil => exact List.prefix_rfl
  | cons piece rest ih => exact (posted_piece env b endpoint target headers piece c).trans (ih _)

variable {actions : List Action} {later : List Bytes}

/-- A POST that is answered 200 has written a delivery of the message of its first piece. -/
theorem post_delivers (refuses : Option PyError) (asked : startsWith target endpoint.path = true)
    (carries : Carries actions (ascii "POST") target headers (first :: later))
    (read : readRequest target headers first = .ok (name, pub))
    (pushing : (Turn.http (endpoint.operation name pub)).pushing env b = some p)
    (answered : ∃ r ∈ (Runs.run (step env refuses) (HttpProtocol.init, b) actions).1.responses,
      r.statusCode = 200) :
    ∃ new h content, ((Runs.run (step env refuses) (HttpProtocol.init, b) actions).2.trackers
          p.protocol).transport.written = (b.trackers p.protocol).transport.written ++ new ∧
      BeginsDelivery new h content ∧ pub.payload = .ok (.bytes content) ∧
      Accepted pub.headers.entries ∧
      ∀ name, h.properties.get? name = (writtenEntries pub.headers.entries).lookup name := by
  obtain ⟨declared, served, _, next⟩ := pushing_served pushing
  obtain ⟨described, payload⟩ := nextPush_publication next
  obtain ⟨done, _, broker, outcome⟩ := post_session refuses (fun p => onPost_message asked) b carries
  have succeeds : Succeeds env b endpoint name pub := by
    obtain ⟨r, mem, status⟩ := answered
    rcases outcome with ⟨r', t, returned, responses⟩ | ⟨e, t, r', _, _, error, responses⟩
    · rcases post_cases env read declared with ⟨yes, _⟩ | ⟨_, ⟨t', none⟩ | ⟨e, t', raised⟩⟩
      · exact yes
      · cases none.symm.trans returned
        rw [responses] at mem
        cases List.mem_singleton.mp mem
        cases status
      · cases raised.symm.trans returned
    · rw [responses] at mem
      cases List.mem_singleton.mp mem
      cases error.symm.trans status
  obtain ⟨delivers, encodes⟩ := pushing_succeeds pushing succeeds
  have loaded : p.headers.Loaded := described ▸ read_loaded read
  obtain ⟨new, h, content, sent, begins, bytes, accepted, properties⟩ :=
    Push.send_delivers loaded delivers encodes
  have pushed : ((after (endpoint.post env target headers first) b).trackers p.protocol).transport =
      (b.trackers p.protocol).transport.put new := by
    rw [after_post read, ← publish_step, (http_pushesJust env b _).sent p pushing]
    exact after_ok (sent _)
  obtain ⟨rest, more⟩ := posted_written env (after (endpoint.post env target headers first) b)
    endpoint target headers done p.protocol
  rw [pushed, Transport.put_written, List.append_assoc] at more
  rw [described] at accepted properties
  refine ⟨new ++ rest, h, content, ?_, begins rest, bytes ▸ payload, accepted, properties⟩
  rw [broker]
  exact more.symm

/-- Whatever way the delivery is read, it is of this message. -/
theorem post_delivered (refuses : Option PyError) (asked : startsWith target endpoint.path = true)
    (carries : Carries actions (ascii "POST") target headers (first :: later))
    (read : readRequest target headers first = .ok (name, pub))
    (pushing : (Turn.http (endpoint.operation name pub)).pushing env b = some p)
    (answered : ∃ r ∈ (Runs.run (step env refuses) (HttpProtocol.init, b) actions).1.responses,
      r.statusCode = 200) {new : Bytes} {h : Header} {content : Bytes}
    (written : ((Runs.run (step env refuses) (HttpProtocol.init, b) actions).2.trackers
      p.protocol).transport.written = (b.trackers p.protocol).transport.written ++ new)
    (begins : BeginsDelivery new h content) : pub.payload = .ok (.bytes content) ∧
      Accepted pub.headers.entries ∧
      ∀ name, h.properties.get? name = (writtenEntries pub.headers.entries).lookup name := by
  obtain ⟨new', h', content', written', begins', read'⟩ :=
    post_delivers refuses asked carries read pushing answered
  cases List.append_cancel_left (written.symm.trans written')
  obtain ⟨rfl, rfl⟩ := begins.unique begins'
  exact read'

/-! ## Fidelity -/

/-- The header and the body are those that have been posted. -/
structure Faithful (headers : Headers) (data : Bytes) (h : Header) (content : Bytes) : Prop where
  named : DeliversHeaders headers h
  binary : OctetStream headers → content = data
  text : ¬ OctetStream headers → ∃ message described chars, IsMessage data message ∧
    message.lookup (str "headers") = some described ∧
    message.lookup (str "body") = some (.str chars) ∧ encodeUtf8 chars = .ok content ∧
    ∀ name v, described.entries.lookup name = some v → h.Delivers name v

/-- A binary body has come in one piece, and its headers fit the properties. A JSON text is one
message, and the content header has a place for its headers and for those of the request. -/
structure Fits (headers : Headers) (first : Bytes) (later : List Bytes) : Prop where
  binary : OctetStream headers → later.flatten = [] ∧ FitsProperties headers
  text : ¬ OctetStream headers → ∃ message described,
    IsMessage (first :: later).flatten message ∧
    message.lookup (str "headers") = some described ∧
    (∀ name v, described.entries.lookup name = some v → Carried described.entries name v) ∧
    ∀ name value, (headerPrefix ++ name, value) ∈ headers → ∃ n chars,
      decodeUtf8 false name = .ok n ∧ decodeUtf8 false value = .ok chars ∧
      Reaches described.entries n (.str chars)

variable {h : Header} {content : Bytes}

theorem binary_faithful_iff (later : List Bytes) (binary : OctetStream headers)
    (read : readRequest target headers first = .ok (name, pub))
    (payload : pub.payload = .ok (.bytes content)) (accepted : Accepted pub.headers.entries)
    (properties : ∀ name, h.properties.get? name = (writtenEntries pub.headers.entries).lookup name) :
    Faithful headers (first :: later).flatten h content ↔ Fits headers first later := by
  obtain ⟨kept, keeps, described, bytes, flagged⟩ := read_binary binary read
  have whole : content = first := by
    unfold Publication.payload at payload
    rw [flagged, if_pos rfl, bytes] at payload
    cases payload
    rfl
  subst whole
  rw [described] at accepted properties
  have headers := deliversHeaders_iff keeps accepted properties
  constructor
  · intro faithful
    have same := faithful.binary binary
    rw [List.flatten_cons] at same
    exact ⟨fun _ => ⟨List.self_eq_append_right.mp same, headers.mp faithful.named⟩,
      fun text => absurd binary text⟩
  · intro fits
    obtain ⟨nothing, fit⟩ := fits.binary binary
    refine ⟨headers.mpr fit, fun _ => ?_, fun text => absurd binary text⟩
    rw [List.flatten_cons, nothing, List.append_nil]

/-- The body of a message that is published and not binary is a text. -/
theorem text_payload {message : List (Str × Val)} (posted : IsMessage data message)
    (body : message.lookup (str "body") = some pub.messageData)
    (payload : pub.payload = .ok (.bytes content)) :
    ∃ chars, pub.messageData = .str chars ∧ encodeUtf8 chars = .ok content := by
  obtain ⟨_, _, loaded⟩ := except_bind_eq_ok.mp posted
  obtain ⟨_, _, split, _⟩ := List.lookup_eq_some_iff.mp body
  have value : pub.messageData.Loaded := (jsonLoads_loaded loaded).entries
    (str "body", pub.messageData) (by simp [Val.entries, split])
  unfold Publication.payload at payload
  split at payload
  · rw [Except.ok.inj payload] at value
    cases value
  · split at payload
    · next chars same =>
        refine ⟨chars, same, ?_⟩
        cases encoded : encodeUtf8 chars with
        | error e =>
            rw [encoded] at payload
            cases payload
        | ok b =>
            rw [encoded] at payload
            cases payload
            rfl
    · cases payload

theorem text_faithful_iff (later : List Bytes) (text : ¬ OctetStream headers)
    (read : readRequest target headers first = .ok (name, pub))
    (payload : pub.payload = .ok (.bytes content)) (accepted : Accepted pub.headers.entries)
    (properties : ∀ name, h.properties.get? name = (writtenEntries pub.headers.entries).lookup name) :
    Faithful headers (first :: later).flatten h content ↔ Fits headers first later := by
  obtain ⟨message, posted, described, body⟩ := read_text text read
  have one : ∀ message', IsMessage (first :: later).flatten message' → message' = message :=
    fun message' whole => posted.beginning whole
  have loaded : ∀ n v, pub.headers.entries.lookup n = some v → v.Loaded := by
    intro n v found
    obtain ⟨_, _, split, _⟩ := List.lookup_eq_some_iff.mp found
    exact (read_loaded read).entries (n, v) (by simp [split])
  constructor
  · intro faithful
    refine ⟨fun binary => absurd binary text, fun _ => ?_⟩
    obtain ⟨message', described', _, whole, found, _, _, delivered⟩ := faithful.text text
    cases one _ whole
    cases described.symm.trans found
    refine ⟨message, pub.headers, whole, described, fun n v supplied => ?_, fun n value mem => ?_⟩
    · exact (reaches_iff_carried accepted supplied).mp
        ((delivers_iff_reaches (loaded n v supplied) properties).mp (delivered n v supplied))
    · obtain ⟨name', chars, decoded, decoded', delivers⟩ := faithful.named n value mem
      exact ⟨name', chars, decoded, decoded',
        (delivers_iff_reaches (.str chars) properties).mp delivers⟩
  · intro fits
    obtain ⟨message', described', whole, found, carried, reaches⟩ := fits.text text
    cases one _ whole
    cases described.symm.trans found
    obtain ⟨chars, same, encoded⟩ := text_payload posted body payload
    refine ⟨fun n value mem => ?_, fun binary => absurd binary text, fun _ =>
      ⟨message, pub.headers, chars, whole, described, same ▸ body, encoded, fun n v supplied => ?_⟩⟩
    · obtain ⟨name', chars', decoded, decoded', reached⟩ := reaches n value mem
      exact ⟨name', chars', decoded, decoded',
        (delivers_iff_reaches (.str chars') properties).mpr reached⟩
    · exact (delivers_iff_reaches (loaded n v supplied) properties).mpr
        ((reaches_iff_carried accepted supplied).mpr (carried n v supplied))

/-- The consumer that a POST with the answer 200 pushes to gets the headers and the body that have
been posted exactly if they fit. -/
theorem faithful_iff (env : Env) (refuses : Option PyError) (b : Broker) (endpoint : Endpoint)
    (asked : startsWith target endpoint.path = true)
    (carries : Carries actions (ascii "POST") target headers (first :: later))
    (read : readRequest target headers first = .ok (name, pub))
    (pushing : (Turn.http (endpoint.operation name pub)).pushing env b = some p)
    (answered : ∃ r ∈ (Runs.run (step env refuses) (HttpProtocol.init, b) actions).1.responses,
      r.statusCode = 200) :
    (∃ new h content, ((Runs.run (step env refuses) (HttpProtocol.init, b) actions).2.trackers
          p.protocol).transport.written = (b.trackers p.protocol).transport.written ++ new ∧
        BeginsDelivery new h content ∧ Faithful headers (first :: later).flatten h content) ↔
      Fits headers first later := by
  have fits_iff : ∀ {h content}, pub.payload = .ok (.bytes content) ∧ Accepted pub.headers.entries ∧
      (∀ name, h.properties.get? name = (writtenEntries pub.headers.entries).lookup name) →
      (Faithful headers (first :: later).flatten h content ↔ Fits headers first later) := by
    rintro h content ⟨payload, accepted, properties⟩
    by_cases binary : OctetStream headers
    · exact binary_faithful_iff later binary read payload accepted properties
    · exact text_faithful_iff later binary read payload accepted properties
  constructor
  · rintro ⟨new, h, content, written, begins, faithful⟩
    exact (fits_iff (post_delivered refuses asked carries read pushing answered written
      begins)).mp faithful
  · intro fits
    obtain ⟨new, h, content, written, begins, delivered⟩ :=
      post_delivers refuses asked carries read pushing answered
    exact ⟨new, h, content, written, begins, (fits_iff delivered).mpr fits⟩

end

/-- A request that posts two bytes for queue `q`, with one header for the message. -/
def postHiWith (name value : String) : Headers × List Action :=
  let headers := octetStream ++ [(headerPrefix ++ ascii name, ascii value)]
  (headers, [arrival (whole (ascii "POST") (ascii "/add-message-in-queue/q") headers [ascii "hi"])])

theorem postHiWith_carries (name value : String) : Carries (postHiWith name value).2 (ascii "POST")
    (ascii "/add-message-in-queue/q") (postHiWith name value).1 [ascii "hi"] where
  events := by
    rw [postHiWith, arrival, incoming, incoming, List.append_nil]
    rfl
  alone := by simp [Alone, postHiWith, arrival]

theorem postHiWith_binary (name value : String) : OctetStream (postHiWith name value).1 :=
  List.mem_cons_self

/-- Its message is pushed to a consumer of connection 0, and it is answered 200. -/
def PushesHi (name value : String) : Prop :=
  (((readRequest (ascii "/add-message-in-queue/q") (postHiWith name value).1 (ascii "hi")).toOption.bind
      fun m => (Turn.http (Endpoint.queue.operation m.1 m.2)).pushing guestEnv
        (session oneConsumer).broker).map (·.protocol) = some 0) ∧
    ∃ r ∈ (Runs.run (step guestEnv none) (HttpProtocol.init, (session oneConsumer).broker)
      (postHiWith name value).2).1.responses, r.statusCode = 200

theorem PushesHi.pushed {name value : String} (pushes : PushesHi name value) : ∃ queueName pub p,
    readRequest (ascii "/add-message-in-queue/q") (postHiWith name value).1 (ascii "hi") =
        .ok (queueName, pub) ∧
      (Turn.http (Endpoint.queue.operation queueName pub)).pushing guestEnv
        (session oneConsumer).broker = some p ∧ p.protocol = 0 := by
  obtain ⟨p, made, protocol⟩ := Option.map_eq_some_iff.mp pushes.1
  obtain ⟨⟨queueName, pub⟩, read, pushing⟩ := Option.bind_eq_some_iff.mp made
  refine ⟨queueName, pub, p, ?_, pushing, protocol⟩
  cases request : readRequest (ascii "/add-message-in-queue/q") (postHiWith name value).1
      (ascii "hi") with
  | error e =>
      rw [request] at read
      cases read
  | ok message =>
      rw [request] at read
      rw [Option.some.inj read]

/-- The only header for the message. -/
theorem postHiWith_header {name value : String} {type text : Bytes}
    (mem : (headerPrefix ++ type, text) ∈ (postHiWith name value).1) :
    type = ascii name ∧ text = ascii value := by
  rcases List.mem_cons.mp mem with content | mem
  · cases (Prod.mk.inj content).1
  · obtain ⟨same, rfl⟩ := Prod.mk.inj (List.mem_singleton.mp mem)
    exact ⟨List.append_cancel_left same, rfl⟩

/-- A header with the name of a property is delivered. -/
theorem app_id_delivered :
    ∃ new h content, ((Runs.run (step guestEnv none) (HttpProtocol.init, (session oneConsumer).broker)
          (postHiWith "app_id" "mock").2).2.trackers 0).transport.written =
        ((session oneConsumer).broker.trackers 0).transport.written ++ new ∧
      BeginsDelivery new h content ∧
      Faithful (postHiWith "app_id" "mock").1 [ascii "hi"].flatten h content := by
  have pushes : PushesHi "app_id" "mock" := by
    unfold PushesHi
    decide +kernel
  obtain ⟨queueName, pub, p, read, pushing, protocol⟩ := pushes.pushed
  rw [← protocol]
  refine (faithful_iff guestEnv none _ .queue (by decide) (postHiWith_carries "app_id" "mock") read
    pushing pushes.2).mpr ⟨fun _ => ⟨rfl, ⟨?_, ?_⟩⟩, fun text => absurd (postHiWith_binary _ _) text⟩
  · intro type text mem
    obtain ⟨rfl, _⟩ := postHiWith_header mem
    exact ⟨str "app_id", 2 ^ 3, by decide, by decide⟩
  · intro type text text' mem mem'
    rw [(postHiWith_header mem).2, (postHiWith_header mem').2]

/-- The header of the example in the documentation has no property, and is dropped. -/
theorem x_delay_dropped :
    Reachable guestEnv (session oneConsumer).broker ∧
      Carries (postHiWith "x-delay" "200").2 (ascii "POST") (ascii "/add-message-in-queue/q")
        (postHiWith "x-delay" "200").1 [ascii "hi"] ∧
      (∃ r ∈ (Runs.run (step guestEnv none) (HttpProtocol.init, (session oneConsumer).broker)
        (postHiWith "x-delay" "200").2).1.responses, r.statusCode = 200) ∧
      ∃ queueName pub p, readRequest (ascii "/add-message-in-queue/q") (postHiWith "x-delay" "200").1
          (ascii "hi") = .ok (queueName, pub) ∧
        (Turn.http (Endpoint.queue.operation queueName pub)).pushing guestEnv
          (session oneConsumer).broker = some p ∧
        ¬ ∃ new h content, ((Runs.run (step guestEnv none)
              (HttpProtocol.init, (session oneConsumer).broker)
              (postHiWith "x-delay" "200").2).2.trackers p.protocol).transport.written =
            ((session oneConsumer).broker.trackers p.protocol).transport.written ++ new ∧
          BeginsDelivery new h content ∧
          Faithful (postHiWith "x-delay" "200").1 [ascii "hi"].flatten h content := by
  have pushes : PushesHi "x-delay" "200" := by
    unfold PushesHi
    decide +kernel
  obtain ⟨queueName, pub, p, read, pushing, _⟩ := pushes.pushed
  refine ⟨session_reachable _, postHiWith_carries _ _, pushes.2, queueName, pub, p, read, pushing, ?_⟩
  rintro ⟨new, h, content, written, begins, faithful⟩
  obtain ⟨payload, accepted, properties⟩ := post_delivered none (by decide)
    (postHiWith_carries "x-delay" "200") read pushing pushes.2 written begins
  have fits := ((binary_faithful_iff [] (postHiWith_binary _ _) read payload accepted
    properties).mp faithful).binary (postHiWith_binary _ _)
  obtain ⟨property, bit, listed, named⟩ := fits.2.named (ascii "x-delay") (ascii "200")
    (List.mem_cons_of_mem _ List.mem_cons_self)
  have none : (PROPERTIES.all fun p => decide (ascii "x-delay" ≠ encodePass p.1)) = true := by
    decide +kernel
  exact of_decide_eq_true (List.all_eq_true.mp none _ listed) named

end Http
end MockAmqp
