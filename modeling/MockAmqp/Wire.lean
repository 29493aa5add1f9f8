import Mathlib.Data.List.TakeWhile
import MockAmqp.Delivery
import MockAmqp.Frames

/-!
# What goes out on the wire

Replies are written as whole frames or not at all. A push consists of three frames, and is cut off
when its content cannot be encoded.
-/

namespace MockAmqp
open Exec

namespace RawFrame

variable {raw raw' : RawFrame} {rest rest' : Bytes}

/-- Streams that begin with a frame begin with the same fields if they are the same. -/
theorem fields_of_append (h : raw.bytes ++ rest = raw'.bytes ++ rest') :
    raw.frameType = raw'.frameType ∧ raw.channelNumber = raw'.channelNumber ∧
      raw.payload.length = raw'.payload.length := by
  have head : ∀ (r : RawFrame) (q : Bytes), frameHead (r.bytes ++ q) =
      some (r.frameType.toNat, r.channelNumber.toNat, r.payload.length) := by
    intro r q
    rw [frameHead_append (by rw [r.length_bytes]; omega), r.frameHead_bytes]
  have same := head raw rest
  rw [h, head raw' rest'] at same
  obtain ⟨kind, number, size⟩ := by simpa using same
  exact ⟨(UInt8.toNat_inj.mp kind).symm, (UInt16.toNat_inj.mp number).symm, size.symm⟩

/-- The bytes of two streams that begin with a frame agree after it. -/
theorem bytes_append_inj (h : raw.bytes ++ rest = raw'.bytes ++ rest') :
    raw.bytes = raw'.bytes ∧ rest = rest' := by
  have lengths : raw.bytes.length = raw'.bytes.length := by
    rw [raw.length_bytes, raw'.length_bytes, (fields_of_append h).2.2]
  exact List.append_inj h lengths

theorem bytes_injective : Function.Injective bytes := by
  intro raw raw' h
  have streams : raw.bytes ++ [] = raw'.bytes ++ [] := congrArg (· ++ []) h
  obtain ⟨kind, number, size⟩ := fields_of_append streams
  cases raw
  cases raw'
  cases kind
  cases number
  unfold bytes at h
  dsimp only at h size
  rw [size] at h
  have payload := List.append_cancel_left (List.append_cancel_right h)
  cases payload
  rfl

/-- A stream is cut into frames in one way only. -/
theorem flatten_injective :
    Function.Injective fun frames : List RawFrame => (frames.map bytes).flatten := by
  intro frames
  induction frames with
  | nil =>
      intro frames' h
      cases frames' with
      | nil => rfl
      | cons raw rest =>
          have lengths := congrArg List.length h
          simp [length_bytes] at lengths
          omega
  | cons raw rest ih =>
      intro frames' h
      cases frames' with
      | nil =>
          have lengths := congrArg List.length h
          simp [length_bytes] at lengths
      | cons raw' rest' =>
          obtain ⟨first, others⟩ := bytes_append_inj (by simpa using h)
          rw [bytes_injective first, ih others]

end RawFrame

/-- A concatenation of complete frames. -/
def Framed (written : Bytes) : Prop :=
  ∃ frames : List RawFrame, written = (frames.map RawFrame.bytes).flatten

/-- The three frames of a push. -/
def WholePush (written : Bytes) : Prop :=
  ∃ deliver header body : RawFrame, deliver.frameType = 1 ∧ header.frameType = 2 ∧
    body.frameType = 3 ∧ written = deliver.bytes ++ header.bytes ++ body.bytes

theorem framed_nil : Framed [] := ⟨[], rfl⟩

theorem Framed.append {l r : Bytes} (hl : Framed l) (hr : Framed r) : Framed (l ++ r) := by
  obtain ⟨frames, rfl⟩ := hl
  obtain ⟨frames', rfl⟩ := hr
  exact ⟨frames ++ frames', by simp⟩

theorem framed_bytes (raw : RawFrame) : Framed raw.bytes := ⟨[raw], by simp⟩

theorem WholePush.framed {l : Bytes} (h : WholePush l) : Framed l := by
  obtain ⟨deliver, header, body, _, _, _, rfl⟩ := h
  exact ((framed_bytes deliver).append (framed_bytes header)).append (framed_bytes body)

theorem Framed.of_append {raw : RawFrame} {rest : Bytes} (h : Framed (raw.bytes ++ rest)) :
    Framed rest := by
  obtain ⟨frames, same⟩ := h
  cases frames with
  | nil =>
      have lengths := congrArg List.length same
      simp [RawFrame.length_bytes] at lengths
  | cons first frames =>
      obtain ⟨_, others⟩ := RawFrame.bytes_append_inj (by simpa using same)
      exact ⟨frames, others⟩

/-- Fewer bytes than the smallest frame has make no frames. -/
theorem Framed.eq_nil {l : Bytes} (h : Framed l) (few : l.length < 8) : l = [] := by
  obtain ⟨frames, rfl⟩ := h
  cases frames with
  | nil => rfl
  | cons first frames =>
      simp [RawFrame.length_bytes] at few
      omega

/-! ## Senders of method frames -/

def Transport.put (t : Transport) (b : Bytes) : Transport := { t with written := t.written ++ b }

@[simp] theorem Transport.put_written (t : Transport) (b : Bytes) :
    (t.put b).written = t.written ++ b := rfl

@[simp] theorem Transport.put_closing (t : Transport) (b : Bytes) :
    (t.put b).closing = t.closing := rfl

@[simp] theorem Transport.put_put (t : Transport) (b b' : Bytes) :
    (t.put b).put b' = t.put (b ++ b') := by
  simp [Transport.put, List.append_assoc]

theorem write_apply (b : Bytes) (t : Transport) : write b t = .ok () (t.put b) := rfl

/-- The sender writes one frame, or it raises and writes nothing. -/
def SendsWhole (kind : UInt8) (x : Send Unit) : Prop :=
  (∃ e, ∀ t, x t = .error e t) ∨
    ∃ raw : RawFrame, raw.frameType = kind ∧ ∀ t, x t = .ok () (t.put raw.bytes)

theorem beBytes_two {n : Nat} (h : n < 256) : beBytes 2 n = [0, UInt8.ofNat n] := by
  have high : n / 256 = 0 := Nat.div_eq_of_lt h
  simp [beBytes, high]

theorem packUnsigned_four {n : Nat} (h : n < 2 ^ 32) :
    packUnsigned 4 (n : Nat) = .ok (beBytes 4 n) := by
  unfold packUnsigned
  rw [if_pos ⟨by omega, by omega⟩]
  rfl

/-- A frame on a channel number that fits one byte. -/
def smallFrame (kind : UInt8) (n : Nat) (payload : Bytes) (fits : payload.length < 2 ^ 32) :
    RawFrame where
  frameType := kind
  channelNumber := UInt16.ofNat n
  payload := payload
  fits := fits

theorem smallFrame_bytes {kind : UInt8} {n : Nat} {payload : Bytes}
    {fits : payload.length < 2 ^ 32} (small : n < 256) :
    (smallFrame kind n payload fits).bytes =
      [kind, 0, UInt8.ofNat n] ++ beBytes 4 payload.length ++ payload ++ [0xCE] := by
  have number : (UInt16.ofNat n).toNat = n := by
    rw [UInt16.toNat_ofNat']
    omega
  simp only [smallFrame, RawFrame.bytes, number, beBytes_two small]
  simp

/-- The frame of a method on a small channel number. -/
theorem sendMethod_small {n classId methodId : Nat} {arguments : Bytes} (small : n < 256)
    (fits : ([0, UInt8.ofNat classId, 0, UInt8.ofNat methodId] ++ arguments).length < 2 ^ 32)
    (t : Transport) : sendMethod n classId methodId arguments t = .ok () (t.put (smallFrame 1 n
      ([0, UInt8.ofNat classId, 0, UInt8.ofNat methodId] ++ arguments) fits).bytes) := by
  have size : ([0, UInt8.ofNat classId, 0, UInt8.ofNat methodId] ++ arguments).length =
      4 + arguments.length := by
    rw [List.length_append]
    rfl
  have packed := packUnsigned_four (size ▸ fits)
  unfold sendMethod
  rw [frameStart_small small, packed, smallFrame_bytes small, size]
  simp only [attempt_bind_ok, bind_apply, write_apply, Transport.put_put]
  simp

theorem sendMethod_whole (n classId methodId : Nat) {arguments : Bytes}
    (fits : 4 + arguments.length < 2 ^ 32) :
    SendsWhole 1 (sendMethod n classId methodId arguments) := by
  by_cases small : n < 256
  · exact .inr ⟨smallFrame 1 n _ (by rwa [List.length_append]), rfl,
      sendMethod_small small _⟩
  · refine .inl ⟨.valueError, fun t => ?_⟩
    unfold sendMethod
    rw [frameStart_large (Nat.not_lt.mp small)]
    rfl

/-! ## Sizes of arguments -/

/-- The formats of the arguments that are never long: numbers, bits and short strings. -/
def shortFormats : List Char := ['b', 'o', 'B', 'l', 'L', 's']

theorem allShort {format : List Char} (all : format.all (shortFormats.contains ·) = true) :
    ∀ p ∈ format, p ∈ shortFormats := by
  intro p mem
  exact List.contains_iff_mem.mp (List.all_eq_true.mp all p mem)

def DumpState.size (st : DumpState) : Nat := st.bits.length + st.out.length

theorem DumpState.size_write_flush (st : DumpState) (b : Bytes) :
    (st.flush.write b).size = st.size + b.length := by
  simp only [size, flush, write, List.length_nil, List.length_append]
  omega

theorem packUnsigned_length {width : Nat} {v : Int} {b : Bytes}
    (h : packUnsigned width v = .ok b) : b.length = width := by
  unfold packUnsigned at h
  split at h
  · cases h
    exact length_beBytes _ _
  · cases h

theorem lengthPrefixed_length {width : Nat} {b c : Bytes} (h : lengthPrefixed width b = .ok c) :
    c.length < width + 2 ^ (8 * width) := by
  unfold lengthPrefixed at h
  obtain ⟨size, packed, h⟩ := except_bind_eq_ok.mp h
  cases h
  have sized := packUnsigned_length packed
  unfold packUnsigned at packed
  split at packed
  · rename_i bounds
    rw [List.length_append, sized]
    have := bounds.2
    have small : b.length < 2 ^ (8 * width) := by exact_mod_cast this
    omega
  · cases packed

theorem writeString_length {width : Nat} {v : Val} {b : Bytes} (h : writeString width v = .ok b) :
    b.length < width + 2 ^ (8 * width) := by
  unfold writeString at h
  split at h
  · split at h
    · exact lengthPrefixed_length h
    · obtain ⟨_, _, h⟩ := except_bind_eq_ok.mp h
      obtain ⟨_, _, h⟩ := except_bind_eq_ok.mp h
      cases h
  · exact lengthPrefixed_length h

theorem dumpOne_size {st st' : DumpState} {p : Char} {v : Val} (short : p ∈ shortFormats)
    (h : dumpOne st p v = .ok st') : st'.size ≤ st.size + 256 := by
  have packed : ∀ {width : Nat} {x : Except PyError Int}, width ≤ 8 →
      (do return st.flush.write (← packUnsigned width (← x))) = Except.ok st' →
      st'.size ≤ st.size + 256 := by
    intro width x bound h
    obtain ⟨i, _, h⟩ := except_bind_eq_ok.mp h
    obtain ⟨b, hb, h⟩ := except_bind_eq_ok.mp h
    cases h
    rw [DumpState.size_write_flush, packUnsigned_length hb]
    omega
  simp only [shortFormats, List.mem_cons, List.not_mem_nil, or_false] at short
  rcases short with rfl | rfl | rfl | rfl | rfl | rfl
  · simp only [dumpOne] at h
    cases h
    simp only [DumpState.size, List.length_append, List.length_dropLast, List.length_singleton]
    split <;> simp <;> omega
  · exact packed (by decide) h
  · exact packed (by decide) h
  · exact packed (by decide) h
  · exact packed (by decide) h
  · simp only [dumpOne] at h
    obtain ⟨b, hb, h⟩ := except_bind_eq_ok.mp h
    cases h
    have bound := writeString_length hb
    rw [DumpState.size_write_flush]
    omega

theorem dumpAll_size {format : List Char} {values : List Val} {st : DumpState} {b : Bytes}
    (short : ∀ p ∈ format, p ∈ shortFormats) (h : dumpAll format values st = .ok b) :
    b.length ≤ st.size + 256 * format.length := by
  induction format generalizing values st with
  | nil =>
      cases values with
      | nil =>
          cases h
          simp [DumpState.flush, DumpState.size]
          omega
      | cons v rest => cases h
  | cons p format ih =>
      cases values with
      | nil =>
          cases h
          simp [DumpState.flush, DumpState.size]
          omega
      | cons v rest =>
          obtain ⟨st', one, h⟩ := except_bind_eq_ok.mp h
          have first := dumpOne_size (short p List.mem_cons_self) one
          have later := ih (fun q hq => short q (List.mem_cons_of_mem p hq)) h
          rw [List.length_cons]
          omega

theorem dumps_size {format : List Char} {values : List Val} {b : Bytes}
    (short : ∀ p ∈ format, p ∈ shortFormats) (h : dumps format values = .ok b) :
    b.length ≤ 256 * format.length := by
  have bound := dumpAll_size short h
  have empty : DumpState.size { bitcount := 0, bits := [], out := [] } = 0 := rfl
  omega

/-! ## Replies -/

theorem sendMethodArgs_whole {format : String} (short : ∀ p ∈ format.toList, p ∈ shortFormats)
    (few : format.length < 2 ^ 20) (n classId methodId : Nat) (values : List Val) :
    SendsWhole 1 (sendMethodArgs n classId methodId format values) := by
  unfold sendMethodArgs
  cases encoded : dumps format.toList values with
  | error e => exact .inl ⟨e, fun _ => rfl⟩
  | ok arguments =>
      have bound := dumps_size short encoded
      rw [attempt_bind_ok]
      refine sendMethod_whole n classId methodId ?_
      rw [String.length_toList] at bound
      omega

theorem sendMethodArgs_whole_of {format : String} {values : List Val} {arguments : Bytes}
    (encoded : dumps format.toList values = .ok arguments) (fits : arguments.length < 2 ^ 31)
    (n classId methodId : Nat) :
    SendsWhole 1 (sendMethodArgs n classId methodId format values) := by
  unfold sendMethodArgs
  rw [encoded, attempt_bind_ok]
  exact sendMethod_whole n classId methodId (by omega)

theorem connectionStart_whole : SendsWhole 1 sendConnectionStart := by
  obtain ⟨arguments, encoded, small⟩ := connectionStart_encodes
  exact sendMethodArgs_whole_of encoded small 0 10 10

theorem heartbeat_whole : SendsWhole 8 sendHeartbeat := by
  refine .inr ⟨{ frameType := 8, channelNumber := 0, payload := [], fits := by decide }, rfl, ?_⟩
  intro t
  unfold sendHeartbeat
  have size : packUnsigned 4 0 = .ok (beBytes 4 0) := packUnsigned_four (by decide)
  rw [size]
  simp only [bind_apply, write_apply, Transport.put_put, attempt_bind_ok]
  rfl

/-- Every reply is written as a whole frame or raises before it has written anything. -/
theorem Reply.send_whole (r : Reply) : ∃ kind, SendsWhole kind r.send := by
  have short : ∀ {format : String}, (∀ p ∈ format.toList, p ∈ shortFormats) →
      format.length < 2 ^ 20 → ∀ (n classId methodId : Nat) (values : List Val),
      ∃ kind, SendsWhole kind (sendMethodArgs n classId methodId format values) :=
    fun formats few n classId methodId values =>
      ⟨1, sendMethodArgs_whole formats few n classId methodId values⟩
  have bare : ∀ n classId methodId, ∃ kind, SendsWhole kind (sendMethod n classId methodId []) :=
    fun n classId methodId => ⟨1, sendMethod_whole n classId methodId (by decide)⟩
  cases r with
  | heartbeat => exact ⟨8, heartbeat_whole⟩
  | connectionStart => exact ⟨1, connectionStart_whole⟩
  | channelOpenOk n => exact ⟨1, sendMethodArgs_whole_of rfl (by decide) n 20 11⟩
  | connectionCloseOk => exact bare 0 10 51
  | channelCloseOk n => exact bare n 20 41
  | exchangeDeclareOk n => exact bare n 40 11
  | queueBindOk n => exact bare n 50 21
  | basicQosOk n => exact bare n 60 11
  | connectionTune => exact short (allShort rfl) (by decide) _ _ _ _
  | connectionOk => exact short (allShort rfl) (by decide) _ _ _ _
  | queueDeclareOk n queueName messages consumers =>
      exact short (allShort rfl) (by decide) _ _ _ _
  | basicConsumeOk n tag => exact short (allShort rfl) (by decide) _ _ _ _
  | basicCancelOk n tag => exact short (allShort rfl) (by decide) _ _ _ _

/-! ## Turns -/

/-- What is added to each transport is a concatenation of complete frames. -/
def WritesFramed (b b' : Broker) : Prop :=
  ∀ c, ∃ new, Framed new ∧
    (b'.trackers c).transport.written = (b.trackers c).transport.written ++ new

section
variable {env : Env} {c : ConnId} {f : FrameValue} {b : Broker}

theorem writesFramed_progress : Progress WritesFramed where
  refl := fun _ _ => ⟨[], framed_nil, (List.append_nil _).symm⟩
  trans := by
    intro b1 b2 b3 h k c
    obtain ⟨new, framed, written⟩ := h c
    obtain ⟨new', framed', written'⟩ := k c
    exact ⟨new ++ new', framed.append framed', by rw [written', written, List.append_assoc]⟩

theorem writesFramed_of_same {b' : Broker}
    (same : ∀ c, (b'.trackers c).transport.written = (b.trackers c).transport.written) :
    WritesFramed b b' := fun c => ⟨[], framed_nil, by rw [same c, List.append_nil]⟩

theorem writesFramed_setTracker {t : Tracker} {new : Bytes} (framed : Framed new)
    (written : t.transport.written = (b.trackers c).transport.written ++ new) :
    WritesFramed b (b.setTracker c t) := by
  intro c'
  by_cases same : c' = c
  · subst same
    exact ⟨new, framed, by rw [Broker.setTracker_self, written]⟩
  · exact ⟨[], framed_nil, by rw [Broker.setTracker_ne _ same, List.append_nil]⟩

theorem writesFramed_update {g : Broker → Tracker}
    (same : ∀ b, (g b).transport.written = (b.trackers c).transport.written) :
    Within WritesFramed (update fun b => b.setTracker c (g b) : OnBroker Unit) :=
  fun b => writesFramed_setTracker framed_nil (by rw [same b, List.append_nil])

theorem writesFramed_log (e : Event) : Within WritesFramed (log e) :=
  fun _ => writesFramed_of_same fun _ => rfl

theorem writesFramed_send {kind : UInt8} {x : Send Unit} (whole : SendsWhole kind x) :
    Within WritesFramed (onTransport c x) := by
  intro b
  rw [onTransport_apply_tracker]
  rcases whole with ⟨e, failed⟩ | ⟨raw, _, sent⟩
  · refine writesFramed_setTracker framed_nil ?_
    rw [after_error (failed _), List.append_nil]
  · refine writesFramed_setTracker (framed_bytes raw) ?_
    rw [after_ok (sent _)]
    rfl

theorem writesFramed_close : Within WritesFramed (close c) := by
  intro b
  refine writesFramed_setTracker (b := b) framed_nil ?_
  rw [List.append_nil]

theorem writesFramed_reply (r : Reply) : Within WritesFramed (reply c r) := by
  obtain ⟨kind, whole⟩ := r.send_whole
  exact within_bind writesFramed_progress (writesFramed_send whole) fun _ => writesFramed_log _

variable (env c f) in
/-- Whatever a frame leads to, it leads to whole frames. -/
theorem dispatch_writesFramed : Within WritesFramed (dispatch env c f) := by
  intro b
  have called : ∀ b1 b2, Called env c f b1 b2 → WritesFramed b1 b2 := by
    rintro b1 b2 ⟨op, _, rfl⟩
    rw [after_call]
    exact writesFramed_of_same fun _ => rfl
  have respects : Respects c f WritesFramed := {
    toProgress := writesFramed_progress
    reply := fun r _ => writesFramed_reply r
    close := writesFramed_close }
  by_cases hn : f.channelNumber = 0
  · have steps : RespectsHandshake c f WritesFramed := {
      toRespects := respects
      parser := fun b _ s' _ _ _ => writesFramed_update (g := fun b => { b.trackers c with
        parserState := s' }) (fun _ => rfl) b }
    exact (dispatch_handshake_once env steps (fun _ => writesFramed_log _) hn b).within
      writesFramed_progress called
  · have steps : RespectsChannel c f WritesFramed := {
      toRespects := respects
      setChannel := fun channel => writesFramed_update (g := fun b => { b.trackers c with
        channels := (b.trackers c).channels.insert f.channelNumber channel }) fun _ => rfl
      deleteChannel := writesFramed_update (g := fun b => { b.trackers c with
        channels := (b.trackers c).channels.erase f.channelNumber }) fun _ => rfl
      channelOpened := fun _ => writesFramed_log _ }
    exact (dispatch_channel_once env steps (fun _ => writesFramed_log _) hn b).within
      writesFramed_progress called

end

/-! ## Pushes -/

/-- The first of the three frames of a push. -/
def Push.deliver (p : Push) : Send Unit :=
  sendBasicDeliver p.channelNumber p.consumerTag p.deliveryTag false p.exchangeName []

/-- The other two. -/
def Push.content (p : Push) : Send Unit := do
  sendContentHeader p.channelNumber p.headers (← attempt p.message.len)
  sendContentBody p.channelNumber p.message

theorem Push.send_eq (p : Push) : p.send = p.deliver >>= fun _ => p.content := rfl

/-- The arguments of a content header. -/
def headerArguments (properties : Val) (bodySize : Nat) : Except PyError Bytes := do
  let (propertyFlags, formats, values) ← collectProperties properties PROPERTIES
  dumps ("BBLB".toList ++ formats)
    ([.int 60, .int 0, .int bodySize, .int propertyFlags] ++ values)

/-- The deliver method can be written. -/
def Push.delivers (p : Push) : Bool :=
  match dumps "sLbss".toList [.str p.consumerTag, .int p.deliveryTag, .bool false,
    .str p.exchangeName, .str []] with
  | .ok _ => p.channelNumber < 256
  | .error _ => false

/-- The payload is a byte string, its length fits its field, and the properties can be written. -/
def Push.encodes (p : Push) : Bool :=
  match p.message with
  | .bytes data => data.length < 2 ^ 32 &&
      match headerArguments p.headers data.length with
      | .ok arguments => arguments.length < 2 ^ 32
      | .error _ => false
  | _ => false

section
variable {p : Push} {n : Nat} {t : Transport}

theorem Push.delivers_channel (h : p.delivers = true) : p.channelNumber < 256 := by
  unfold Push.delivers at h
  split at h
  · simpa using h
  · cases h

theorem Push.deliver_whole : (p.delivers = true →
      ∃ raw : RawFrame, raw.frameType = 1 ∧ ∀ t, p.deliver t = .ok () (t.put raw.bytes)) ∧
    (p.delivers = false → ∃ e, ∀ t, p.deliver t = .error e t) := by
  unfold Push.delivers Push.deliver sendBasicDeliver
  cases encoded : dumps "sLbss".toList [.str p.consumerTag, .int p.deliveryTag, .bool false,
      .str p.exchangeName, .str []] with
  | error e =>
      refine ⟨fun no => (by cases no), fun _ => ⟨e, fun t => ?_⟩⟩
      unfold sendMethodArgs
      rw [encoded]
      rfl
  | ok arguments =>
      have bound := dumps_size (allShort rfl) encoded
      have fits : arguments.length < 2 ^ 31 := by
        have few : "sLbss".toList.length = 5 := rfl
        omega
      refine ⟨fun small => ?_, fun large => ?_⟩
      · rcases sendMethodArgs_whole_of encoded fits p.channelNumber 60 60 with ⟨e, failed⟩ | whole
        · obtain ⟨t', sent⟩ : ∃ t', sendMethodArgs p.channelNumber 60 60 "sLbss" _
              { written := [], closing := false } = .ok () t' :=
            sendMethodArgs_small (by simpa using small) encoded fits _
          rw [failed] at sent
          cases sent
        · exact whole
      · rcases sendMethodArgs_whole_of encoded fits p.channelNumber 60 60 with failed | ⟨_, _, sent⟩
        · exact failed
        · have none := sendMethodArgs_large (by simpa using large) 60 60 "sLbss" [.str p.consumerTag,
            .int p.deliveryTag, .bool false, .str p.exchangeName, .str []]
            { written := [], closing := false }
          obtain ⟨e, failed⟩ := none
          rw [sent] at failed
          cases failed

/-- A content header is its three first bytes and what is made of its arguments. -/
theorem sendContentHeader_apply (small : n < 256) (properties : Val) (bodySize : Nat)
    (t : Transport) : sendContentHeader n properties bodySize t = (do
      let arguments ← attempt (headerArguments properties bodySize)
      write (← attempt (packUnsigned 4 arguments.length))
      write arguments
      write [0xCE] : Send Unit) (t.put [2, 0, UInt8.ofNat n]) := by
  unfold sendContentHeader headerArguments
  rw [frameStart_small small, attempt_bind_ok, bind_apply, write_apply, attempt_bind, bind_assoc]
  refine congrFun (congrArg (attempt (collectProperties properties PROPERTIES) >>= ·)
    (funext fun r => ?_)) _
  obtain ⟨propertyFlags, formats, values⟩ := r
  rfl

theorem sendContentHeader_sent (small : n < 256) {properties : Val} {bodySize : Nat}
    {arguments : Bytes} (encoded : headerArguments properties bodySize = .ok arguments)
    (fits : arguments.length < 2 ^ 32) (t : Transport) :
    sendContentHeader n properties bodySize t =
      .ok () (t.put (smallFrame 2 n arguments fits).bytes) := by
  rw [sendContentHeader_apply small, encoded, attempt_bind_ok, packUnsigned_four fits,
    smallFrame_bytes small]
  simp only [bind_apply, write_apply, Transport.put_put]
  simp

/-- A content header is written whole, or cut off after its first three bytes. -/
theorem sendContentHeader_cases (small : n < 256) (properties : Val) (bodySize : Nat) :
    (∃ arguments, headerArguments properties bodySize = .ok arguments ∧
        arguments.length < 2 ^ 32 ∧ ∃ raw : RawFrame, raw.frameType = 2 ∧
        ∀ t, sendContentHeader n properties bodySize t = .ok () (t.put raw.bytes)) ∨
      (∀ arguments, headerArguments properties bodySize = .ok arguments →
        ¬ arguments.length < 2 ^ 32) ∧
      ∃ e, ∀ t, sendContentHeader n properties bodySize t =
        .error e (t.put [2, 0, UInt8.ofNat n]) := by
  cases encoded : headerArguments properties bodySize with
  | error e =>
      refine .inr ⟨fun _ no => (by cases no), e, fun t => ?_⟩
      rw [sendContentHeader_apply small, encoded]
      rfl
  | ok arguments =>
      by_cases fits : arguments.length < 2 ^ 32
      · exact .inl ⟨arguments, rfl, fits, smallFrame 2 n arguments fits, rfl,
          sendContentHeader_sent small encoded fits⟩
      · refine .inr ⟨fun _ same => Except.ok.inj same ▸ fits, .structError, fun t => ?_⟩
        have packed : packUnsigned 4 arguments.length = .error .structError := by
          unfold packUnsigned
          rw [if_neg]
          rintro ⟨_, bound⟩
          exact fits (by exact_mod_cast bound)
        rw [sendContentHeader_apply small, encoded, attempt_bind_ok, packed]
        rfl

theorem sendContentBody_apply (small : n < 256) (message : Val) (t : Transport) :
    sendContentBody n message t = (do
      write (← attempt (packUnsigned 4 (← attempt message.len)))
      write (← attempt (writable message))
      write [0xCE] : Send Unit) (t.put [3, 0, UInt8.ofNat n]) := by
  unfold sendContentBody
  rw [frameStart_small small, attempt_bind_ok, bind_apply, write_apply]
  rfl

theorem sendContentBody_sent (small : n < 256) {data : Bytes} (fits : data.length < 2 ^ 32)
    (t : Transport) : sendContentBody n (.bytes data) t =
      .ok () (t.put (smallFrame 3 n data fits).bytes) := by
  have sized : (Val.bytes data).len = .ok data.length := rfl
  have content : writable (.bytes data) = .ok data := rfl
  rw [sendContentBody_apply small, sized, attempt_bind_ok, packUnsigned_four fits, content,
    smallFrame_bytes small]
  simp only [bind_apply, write_apply, Transport.put_put, attempt_bind_ok]
  simp

/-- A content body is written whole, or cut off before its payload. -/
theorem sendContentBody_cases (small : n < 256) (message : Val) :
    (∃ data, message = .bytes data ∧ data.length < 2 ^ 32) ∨
      (∀ data, message = .bytes data → ¬ data.length < 2 ^ 32) ∧
      ∃ cut : Bytes, ¬ Framed cut ∧ ∃ e, ∀ t, sendContentBody n message t =
        .error e (t.put cut) := by
  have short : ∀ (byte : UInt8) (cut : Bytes), cut.length < 7 → ¬ Framed (byte :: cut) := by
    intro byte cut few framed
    cases framed.eq_nil (Nat.succ_lt_succ few)
  cases sized : message.len with
  | error e =>
      refine .inr ⟨?_, [3, 0, UInt8.ofNat n], short _ _ (by simp), e, fun t => ?_⟩
      · rintro data rfl
        cases sized
      · rw [sendContentBody_apply small, sized]
        rfl
  | ok size =>
      by_cases fits : size < 2 ^ 32
      · have packed := packUnsigned_four fits
        cases content : writable message with
        | error e =>
            refine .inr ⟨?_, [3, 0, UInt8.ofNat n] ++ beBytes 4 size, short _ _ (by simp), e,
              fun t => ?_⟩
            · rintro data rfl
              cases content
            · rw [sendContentBody_apply small, sized, attempt_bind_ok, packed, attempt_bind_ok,
                bind_apply, write_apply, content, Transport.put_put]
              rfl
        | ok data =>
            have bytes : message = .bytes data := by
              cases message <;> cases content
              rfl
            subst bytes
            cases sized
            exact .inl ⟨data, rfl, fits⟩
      · refine .inr ⟨?_, [3, 0, UInt8.ofNat n], short _ _ (by simp), .structError, fun t => ?_⟩
        · rintro data rfl
          cases sized
          exact fits
        · have packed : packUnsigned 4 size = .error .structError := by
            unfold packUnsigned
            rw [if_neg]
            rintro ⟨_, bound⟩
            exact fits (by exact_mod_cast bound)
          rw [sendContentBody_apply small, sized, attempt_bind_ok, packed]
          rfl

theorem Push.encodes_iff : p.encodes = true ↔ ∃ data arguments, p.message = .bytes data ∧
    data.length < 2 ^ 32 ∧ headerArguments p.headers data.length = .ok arguments ∧
    arguments.length < 2 ^ 32 := by
  unfold Push.encodes
  constructor
  · intro h
    split at h
    · rename_i data bytes
      simp only [Bool.and_eq_true, decide_eq_true_eq] at h
      obtain ⟨fits, header⟩ := h
      split at header
      · rename_i arguments encoded
        exact ⟨data, arguments, bytes, fits, encoded, of_decide_eq_true header⟩
      · cases header
    · cases h
  · rintro ⟨data, arguments, bytes, fits, encoded, fits'⟩
    simp only [bytes, encoded, Bool.and_eq_true, decide_eq_true_eq]
    exact ⟨fits, fits'⟩

theorem Push.content_sent (small : p.channelNumber < 256) {data arguments : Bytes}
    (bytes : p.message = .bytes data) (fits : data.length < 2 ^ 32)
    (encoded : headerArguments p.headers data.length = .ok arguments)
    (fits' : arguments.length < 2 ^ 32) (t : Transport) : p.content t =
      .ok () (t.put ((smallFrame 2 p.channelNumber arguments fits').bytes ++
        (smallFrame 3 p.channelNumber data fits).bytes)) := by
  have sized : (Val.bytes data).len = .ok data.length := rfl
  unfold Push.content
  rw [bytes, sized, attempt_bind_ok, bind_ok (sendContentHeader_sent small encoded fits' t),
    sendContentBody_sent small fits, Transport.put_put]

theorem Push.content_whole (small : p.channelNumber < 256) (h : p.encodes = true) :
    ∃ header body : RawFrame, header.frameType = 2 ∧ body.frameType = 3 ∧
      ∀ t, p.content t = .ok () (t.put (header.bytes ++ body.bytes)) := by
  obtain ⟨data, arguments, bytes, fits, encoded, fits'⟩ := Push.encodes_iff.mp h
  exact ⟨_, _, rfl, rfl, Push.content_sent small bytes fits encoded fits'⟩

/-- Content that cannot be encoded is cut off within a frame, or nothing of it is written, for want
of its length. -/
theorem Push.content_cut (small : p.channelNumber < 256) (h : p.encodes = false) :
    ∃ cut : Bytes, (∃ e, ∀ t, p.content t = .error e (t.put cut)) ∧
      (Framed cut → cut = [] ∧ ∃ e, p.message.len = .error e) := by
  cases sized : p.message.len with
  | error e =>
      refine ⟨[], ⟨e, fun t => ?_⟩, fun _ => ⟨rfl, e, rfl⟩⟩
      unfold Push.content
      rw [sized]
      simp [Transport.put]
  | ok size =>
      rcases sendContentHeader_cases small p.headers size with
        ⟨arguments, encoded, fits, raw, _, sent⟩ | ⟨_, e, failed⟩
      · rcases sendContentBody_cases small p.message with
          ⟨data, bytes, short⟩ | ⟨_, cut, unframed, e, failed⟩
        · exfalso
          rw [bytes] at sized
          cases sized
          rw [Push.encodes_iff.mpr ⟨data, arguments, bytes, short, encoded, fits⟩] at h
          cases h
        · refine ⟨raw.bytes ++ cut, ⟨e, fun t => ?_⟩, fun framed => absurd framed.of_append unframed⟩
          unfold Push.content
          rw [sized, attempt_bind_ok, bind_ok (sent t), failed, Transport.put_put]
      · refine ⟨[2, 0, UInt8.ofNat p.channelNumber], ⟨e, fun t => ?_⟩, fun framed => ?_⟩
        · unfold Push.content
          rw [sized, attempt_bind_ok, bind_apply, failed]
        · cases framed.eq_nil (by simp)

/-- A push writes its three frames or nothing exactly if its content can be encoded or not even
its first frame can. -/
theorem Push.send_whole_iff (p : Push) (t : Transport) :
    (∃ new, (new = [] ∨ WholePush new) ∧ (after p.send t).written = t.written ++ new) ↔
      (p.delivers = true → p.encodes = true) := by
  rw [p.send_eq]
  cases h : p.delivers with
  | false =>
      obtain ⟨e, failed⟩ := Push.deliver_whole.2 h
      refine iff_of_true ⟨[], .inl rfl, ?_⟩ (by simp)
      simp only [after, bind_apply, failed, List.append_nil]
  | true =>
      obtain ⟨deliver, kind, sent⟩ := Push.deliver_whole.1 h
      have small := Push.delivers_channel h
      rw [after_congr (bind_ok (sent t))]
      cases encodes : p.encodes with
      | true =>
          obtain ⟨header, body, kind', kind'', sent'⟩ := Push.content_whole small encodes
          refine iff_of_true ⟨deliver.bytes ++ header.bytes ++ body.bytes,
            .inr ⟨deliver, header, body, kind, kind', kind'', rfl⟩, ?_⟩ (fun _ => rfl)
          rw [after_ok (sent' _), Transport.put_put, Transport.put_written, List.append_assoc]
      | false =>
          obtain ⟨cut, ⟨e, failed⟩, unframed⟩ := Push.content_cut small encodes
          refine iff_of_false ?_ (by simp)
          rw [after_error (failed _), Transport.put_put, Transport.put_written]
          rintro ⟨new, whole, same⟩
          have written := List.append_cancel_left same
          have framed : Framed (deliver.bytes ++ cut) := by
            rw [written]
            rcases whole with rfl | whole
            · exact framed_nil
            · exact whole.framed
          obtain ⟨rfl, _⟩ := unframed framed.of_append
          have lengths := congrArg List.length written
          rcases whole with rfl | ⟨deliver', header', body', _, _, _, rfl⟩
          · simp [RawFrame.length_bytes] at lengths
          · rw [List.append_assoc] at written
            obtain ⟨_, rest⟩ := RawFrame.bytes_append_inj written
            have lengths := congrArg List.length rest
            simp [RawFrame.length_bytes] at lengths

end

/-! ## The push of a turn -/

/-- The push that serving a queue begins: to its first consumer on an open transport. -/
def Broker.nextPush (b : Broker) (queueName : Str) (pub : Publication) (exchangeName : Str) :
    Option Push :=
  let closing := fun p : Str × Consumer => b.isClosing p.2.protocol
  let consumers := b.state.consumersOf queueName
  match consumers.dropWhile closing, pub.payload with
  | p :: _, .ok message =>
      some (pushTo queueName pub exchangeName p (b.draws (consumers.takeWhile closing).length)
        message)
  | _, _ => none

/-- The push that a turn begins. -/
def Turn.pushing (env : Env) (b : Broker) : Turn → Option Push
  | .http (.publishMessage exchangeName pub) =>
      if b.state.exchanges.contains exchangeName then
        match b.state.boundQueues env exchangeName with
        | [] => none
        | queueName :: _ => b.nextPush queueName pub exchangeName
      else none
  | .http (.publishMessageInQueue queueName pub) =>
      if b.state.queues.contains queueName then
        b.nextPush queueName pub (str "dummy-exchange")
      else none
  | _ => none

/-- After the turn every stream consists of complete frames, and a push in it wrote its three
frames or nothing. -/
def StaysFramed (env : Env) (b : Broker) (t : Turn) : Prop :=
  let b' := Turn.step env b t
  (∀ c, Framed (b'.trackers c).transport.written) ∧
    ∀ p ∈ pushes (b'.trace.drop b.trace.length), ∃ new, (new = [] ∨ WholePush new) ∧
      (b'.trackers p.protocol).transport.written =
        (b.trackers p.protocol).transport.written ++ new

/-- A push whose first frame can be written has content that can be encoded. -/
def PushEncodes (env : Env) (b : Broker) (t : Turn) : Prop :=
  ∀ p ∈ t.pushing env b, p.delivers = true → p.encodes = true

instance (env : Env) (b : Broker) (t : Turn) : Decidable (PushEncodes env b t) :=
  decidable_of_iff (∀ p ∈ (t.pushing env b).toList, p.delivers = true → p.encodes = true)
    (by simp only [Option.mem_toList, Option.mem_def, PushEncodes])

/-- The push is the only thing recorded and the only thing written. -/
structure PushesJust (o : Option Push) (b b' : Broker) : Prop where
  trace : b'.trace = b.trace ++ o.toList.map .push
  written : ∀ c, (b'.trackers c).transport = (b.trackers c).transport ∨
    ∃ p ∈ o, p.protocol = c
  sent : ∀ p ∈ o, (b'.trackers p.protocol).transport =
    after p.send (b.trackers p.protocol).transport

section
variable {env : Env} {b b' : Broker} {queueName exchangeName : Str} {pub : Publication}

theorem pushesJust_nothing (trace : b'.trace = b.trace) (trackers : b'.trackers = b.trackers) :
    PushesJust none b b' where
  trace := by simp [trace]
  written := fun c => .inl (by rw [trackers])
  sent := by simp

theorem pushesJust_pushMessage (p : Push) : PushesJust (some p) b (after (pushMessage p) b) := by
  rw [after_pushMessage]
  refine ⟨rfl, fun c => ?_, fun q hq => ?_⟩
  · by_cases same : p.protocol = c
    · exact .inr ⟨p, rfl, same⟩
    · exact .inl (by rw [Broker.setTracker_ne _ (Ne.symm same)])
  · cases hq
    rw [Broker.setTracker_self]

/-- Neither the tags drawn nor the state matter to a push already begun. -/
theorem PushesJust.of_parts {o : Option Push} {b1 b2 b1' b2' : Broker} (h : PushesJust o b1 b2)
    (trace : b1'.trace = b1.trace) (trackers : b1'.trackers = b1.trackers)
    (trace' : b2'.trace = b2.trace) (trackers' : b2'.trackers = b2.trackers) :
    PushesJust o b1' b2' where
  trace := by rw [trace', h.trace, trace]
  written := by rw [trackers', trackers]; exact h.written
  sent := by rw [trackers', trackers]; exact h.sent

theorem Broker.nextPush_dead
    (closing : ∀ p ∈ b.state.consumersOf queueName, b.isClosing p.2.protocol = true) :
    b.nextPush queueName pub exchangeName = none := by
  have none_left : (b.state.consumersOf queueName).dropWhile
      (fun p => b.isClosing p.2.protocol) = [] := List.dropWhile_eq_nil_iff.mpr closing
  simp only [Broker.nextPush, none_left]

theorem Broker.nextPush_live {dead rest : List (Str × Consumer)} {p : Str × Consumer}
    (split : b.state.consumersOf queueName = dead ++ p :: rest)
    (closing : ∀ q ∈ dead, b.isClosing q.2.protocol = true)
    (live : b.isClosing p.2.protocol = false) :
    b.nextPush queueName pub exchangeName = match pub.payload with
      | .ok message => some (pushTo queueName pub exchangeName p (b.draws dead.length) message)
      | .error _ => none := by
  have dropped : (dead ++ p :: rest).dropWhile (fun p => b.isClosing p.2.protocol) = p :: rest := by
    rw [List.dropWhile_append_of_pos closing, List.dropWhile_cons_of_neg (by simp [live])]
  have taken : (dead ++ p :: rest).takeWhile (fun p => b.isClosing p.2.protocol) = dead := by
    rw [List.takeWhile_append_of_pos closing, List.takeWhile_cons_of_neg (by simp [live]),
      List.append_nil]
  simp only [Broker.nextPush, split, dropped, taken]
  cases pub.payload <;> rfl

theorem serveQueue_pushesJust :
    PushesJust (b.nextPush queueName pub exchangeName) b
      (after (serveQueue queueName pub exchangeName) b) := by
  cases hq : b.state.queues.get? queueName with
  | none =>
      have nobody : b.state.consumersOf queueName = [] := by
        simp only [State.consumersOf, hq]
      have table : getConsumers queueName b = .error .keyError b := by simp only [getConsumers, hq]
      have raised : serveQueue queueName pub exchangeName b = .error .keyError b := by
        simp only [serveQueue, bind_apply, table]
      rw [after_error raised, Broker.nextPush_dead (by simp [nobody])]
      exact pushesJust_nothing rfl rfl
  | some q =>
      have here := State.consumersOf_eq hq
      have served : Serves b queueName pub exchangeName q.consumers.entries _ :=
        serveQueue_serves hq
      unfold after
      generalize serveQueue queueName pub exchangeName b = r at served
      cases served with
      | nobody closing =>
          rw [Broker.nextPush_dead (by rw [here]; exact closing)]
          exact pushesJust_nothing rfl rfl
      | unencoded split closing live failed =>
          rw [Broker.nextPush_live (here.trans split) closing live, failed]
          exact pushesJust_nothing rfl rfl
      | pushed split closing live payload sent =>
          rw [Broker.nextPush_live (here.trans split) closing live, payload]
          exact (pushesJust_pushMessage (b := b.drawn _) _).of_parts rfl rfl rfl rfl
      | unsent split closing live payload failed =>
          rw [Broker.nextPush_live (here.trans split) closing live, payload]
          exact (pushesJust_pushMessage (b := b.drawn _) _).of_parts rfl rfl rfl rfl

/-- Serving a queue right after a change of the state that keeps its consumers. -/
theorem serveQueue_pushesJust_after {s : State}
    (same : s.consumersOf queueName = b.state.consumersOf queueName) :
    PushesJust (b.nextPush queueName pub exchangeName) b
      (after (serveQueue queueName pub exchangeName) { b with state := s }) := by
  have push : ({ b with state := s } : Broker).nextPush queueName pub exchangeName =
      b.nextPush queueName pub exchangeName := by
    simp only [Broker.nextPush, Broker.isClosing, same]
  rw [← push]
  exact serveQueue_pushesJust.of_parts rfl rfl rfl rfl

theorem publishMessage_pushesJust :
    PushesJust ((Turn.http (.publishMessage exchangeName pub)).pushing env b) b
      (after (publishMessage env exchangeName pub) b) := by
  dsimp only [Turn.pushing]
  cases he : b.state.exchanges.get? exchangeName with
  | none =>
      have undeclared : b.state.exchanges.contains exchangeName = false := by
        simp only [OrderedDict.contains, he, Option.isSome_none]
      rw [after_ok (publishMessage_undeclared undeclared), undeclared]
      exact pushesJust_nothing rfl rfl
  | some e =>
      have declared : b.state.exchanges.contains exchangeName = true := by
        simp only [OrderedDict.contains, he, Option.isSome_some]
      rw [after_congr (publishMessage_declared he), declared, if_pos rfl]
      cases b.state.boundQueues env exchangeName with
      | nil => exact pushesJust_nothing rfl rfl
      | cons queueName rest =>
          exact serveQueue_pushesJust_after (State.consumersOf_setExchange _ _ _ _)

theorem publishMessageInQueue_pushesJust :
    PushesJust ((Turn.http (.publishMessageInQueue queueName pub)).pushing env b) b
      (after (publishMessageInQueue queueName pub) b) := by
  dsimp only [Turn.pushing]
  cases hq : b.state.queues.get? queueName with
  | none =>
      have undeclared : b.state.queues.contains queueName = false := by
        simp only [OrderedDict.contains, hq, Option.isSome_none]
      rw [after_ok (publishMessageInQueue_undeclared undeclared), undeclared]
      exact pushesJust_nothing rfl rfl
  | some q =>
      have declared : b.state.queues.contains queueName = true := by
        simp only [OrderedDict.contains, hq, Option.isSome_some]
      rw [after_congr (publishMessageInQueue_declared hq), declared, if_pos rfl]
      have consumers : (b.state.setQueue queueName
          { q with messages := q.messages ++ [pub.stored] }).consumersOf queueName =
          b.state.consumersOf queueName := by
        rw [State.consumersOf_setQueue, if_pos rfl, State.consumersOf_eq hq]
      exact serveQueue_pushesJust_after consumers

variable (env b) in
theorem http_pushesJust (op : HttpOp) :
    PushesJust ((Turn.http op).pushing env b) b (Turn.step env b (.http op)) := by
  cases op with
  | publishMessage name pub =>
      have same : Turn.step env b (.http (.publishMessage name pub)) =
          after (publishMessage env name pub) b := after_bind_pure _ _ b
      rw [same]
      exact publishMessage_pushesJust
  | publishMessageInQueue name pub =>
      have same : Turn.step env b (.http (.publishMessageInQueue name pub)) =
          after (publishMessageInQueue name pub) b := after_bind_pure _ _ b
      rw [same]
      exact publishMessageInQueue_pushesJust
  | _ => exact pushesJust_nothing rfl rfl

variable (env b) in
/-- A turn of a connection writes whole frames, and pushes nothing. -/
theorem connection_writesFramed {t : Turn} (h : ∀ op, t ≠ .http op) :
    WritesFramed b (Turn.step env b t) ∧
      pushes ((Turn.step env b t).trace.drop b.trace.length) = [] := by
  cases t with
  | http op => exact absurd rfl (h op)
  | lost c =>
      refine ⟨writesFramed_close b, ?_⟩
      have same : (Turn.step env b (.lost c)).trace = b.trace := rfl
      rw [same, List.drop_length]
      rfl
  | frame c f =>
      refine ⟨dispatch_writesFramed env c f b, ?_⟩
      obtain ⟨new, trace, own⟩ := (dispatch_byConn env c f b).events
      rw [Turn.step, trace, List.drop_left]
      refine List.filterMap_eq_nil_iff.mpr fun e he => ?_
      cases e with
      | push p => exact (own _ he).elim
      | _ => rfl
  | start c =>
      constructor
      · by_cases waiting : (b.trackers c).parserState = .waitingProtocolHeader
        · rw [Turn.step_start waiting]
          exact greet_within writesFramed_progress (writesFramed_reply _)
            (within_bind writesFramed_progress (writesFramed_update
              (g := fun b => { b.trackers c with parserState := .waitingStartOk }) fun _ => rfl)
              fun _ => writesFramed_log _) b
        · have same : Turn.step env b (.start c) = b := if_neg waiting
          rw [same]
          exact writesFramed_progress.refl b
      · obtain ⟨new, trace, own⟩ := (Turn.start_byConn env b c).events
        rw [trace, List.drop_left]
        refine List.filterMap_eq_nil_iff.mpr fun e he => ?_
        rcases own e he with rfl | rfl
        · rfl
        · rfl

theorem pushes_map (l : List Push) : pushes (l.map .push) = l := by
  induction l with
  | nil => rfl
  | cons p rest ih => exact congrArg (p :: ·) ih

/-- From framed streams, a turn keeps them framed and its push whole exactly if the push can be
encoded. -/
theorem staysFramed_iff {t : Turn} (framed : ∀ c, Framed (b.trackers c).transport.written) :
    StaysFramed env b t ↔ PushEncodes env b t := by
  by_cases connection : ∀ op, t ≠ .http op
  · obtain ⟨written, nothing⟩ := connection_writesFramed env b connection
    refine iff_of_true ⟨fun c => ?_, ?_⟩ ?_
    · obtain ⟨new, whole, same⟩ := written c
      rw [same]
      exact (framed c).append whole
    · rw [nothing]
      exact fun p hp => absurd hp List.not_mem_nil
    · intro p hp
      cases t with
      | http op => exact absurd rfl (connection op)
      | _ => cases hp
  · push Not at connection
    obtain ⟨op, rfl⟩ := connection
    have just := http_pushesJust env b op
    have made : pushes ((Turn.step env b (.http op)).trace.drop b.trace.length) =
        ((Turn.http op).pushing env b).toList := by
      rw [just.trace, List.drop_left, pushes_map]
    constructor
    · intro h p hp
      obtain ⟨new, whole, written⟩ := h.2 p (by rw [made]; exact Option.mem_toList.mpr hp)
      rw [just.sent p hp] at written
      exact (p.send_whole_iff _).mp ⟨new, whole, written⟩
    · intro encodes
      have sent : ∀ p ∈ (Turn.http op).pushing env b, ∃ new, (new = [] ∨ WholePush new) ∧
          ((Turn.step env b (.http op)).trackers p.protocol).transport.written =
            (b.trackers p.protocol).transport.written ++ new := by
        intro p hp
        rw [just.sent p hp]
        exact (p.send_whole_iff _).mpr (encodes p hp)
      constructor
      · intro c
        rcases just.written c with same | ⟨p, hp, rfl⟩
        · rw [same]
          exact framed c
        · obtain ⟨new, whole, written⟩ := sent p hp
          rw [written]
          refine (framed p.protocol).append ?_
          rcases whole with rfl | whole
          · exact framed_nil
          · exact whole.framed
      · intro p hp
        rw [made] at hp
        exact sent p (Option.mem_toList.mp hp)

/-- From framed streams, a run keeps every stream framed and every push whole exactly as long as
every push that begins can be encoded. -/
theorem run_staysFramed_iff (framed : ∀ c, Framed (b.trackers c).transport.written)
    (turns : List Turn) : Runs.Along (Turn.step env) (StaysFramed env) b turns ↔
      Runs.Along (Turn.step env) (PushEncodes env) b turns :=
  Runs.along_iff (I := fun b => ∀ c, Framed (b.trackers c).transport.written)
    (fun _ _ framed => staysFramed_iff framed) (fun _ _ _ stays => stays.1) framed turns

theorem init_framed (draws : Nat → Draw) (c : ConnId) :
    Framed ((Broker.init env draws).trackers c).transport.written := framed_nil

end

/-- In every run, every stream stays framed and every push is whole exactly as long as every
push that begins can be encoded. -/
theorem streams_stay_framed_iff (env : Env) (draws : Nat → Draw) (actions : List Action) :
    Runs.Along (Turn.step env) (StaysFramed env) (Broker.init env draws)
        (Server.turnsOf env (Server.init env draws) actions) ↔
      Runs.Along (Turn.step env) (PushEncodes env) (Broker.init env draws)
        (Server.turnsOf env (Server.init env draws) actions) :=
  run_staysFramed_iff (init_framed draws) _

/-- A publication whose content type is a number. -/
def numberedType : Publication where
  headers := .dict [(str "content_type", .int 5)]
  messageData := .str (str "hello")
  isBinary := false

/-- The push of such a publication is cut off in its second frame. -/
theorem stream_cut_off :
    ¬ Runs.Along (Turn.step guestEnv) (StaysFramed guestEnv)
      (Broker.init guestEnv fun _ => ⟨7, by decide⟩)
      (Server.turnsOf guestEnv (Server.init guestEnv fun _ => ⟨7, by decide⟩)
        (oneConsumer ++ [.http (.publishMessageInQueue (str "q") numberedType)])) := by
  rw [run_staysFramed_iff (init_framed _)]
  decide +kernel

end MockAmqp
