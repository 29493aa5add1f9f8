import MockAmqp.Layout
import MockAmqp.Segmentation

/-!
# The frames of a stream

What `read_frame` makes of a frame, of its beginnings and of what follows it, and the frames that
a connection treats when a stream arrives in chunks.
-/

namespace MockAmqp
open Exec

/-- A frame on the wire. -/
structure RawFrame where
  frameType : UInt8
  channelNumber : UInt16
  payload : Bytes
  fits : payload.length < 2 ^ 32

namespace RawFrame

def bytes (raw : RawFrame) : Bytes :=
  [raw.frameType] ++ beBytes 2 raw.channelNumber.toNat ++ beBytes 4 raw.payload.length ++
    raw.payload ++ [0xCE]

/-- The payload decodes to the frame value. -/
def Decodes (raw : RawFrame) (f : FrameValue) : Prop :=
  decodePayload raw.frameType.toNat raw.channelNumber.toNat (raw.payload.length + 8) raw.payload =
    .ok (some f)

end RawFrame

/-! ## Reading one frame -/

/-- The fixed part of a frame is read from its seven bytes alone. -/
theorem frameHead_append {p : Bytes} (h : 7 ≤ p.length) (q : Bytes) :
    frameHead (p ++ q) = frameHead p := by
  have longer : 7 ≤ (p ++ q).length := by
    rw [List.length_append]
    omega
  unfold frameHead
  rw [if_pos h, if_pos longer, slice_append (by omega), slice_append (by omega),
    slice_append (by omega)]

namespace RawFrame

variable (raw : RawFrame)

theorem length_bytes : raw.bytes.length = raw.payload.length + 8 := by
  simp only [bytes, List.length_append, List.length_singleton, length_beBytes]
  omega

theorem bytes_ne_nil : raw.bytes ≠ [] := by
  rw [← List.length_pos_iff, length_bytes]
  omega

theorem frameHead_bytes : frameHead raw.bytes =
    some (raw.frameType.toNat, raw.channelNumber.toNat, raw.payload.length) := by
  have kind : slice raw.bytes 0 1 = [raw.frameType] :=
    slice_of_split [] _ (beBytes 2 raw.channelNumber.toNat ++ beBytes 4 raw.payload.length ++
      raw.payload ++ [0xCE]) (by simp [bytes]) rfl rfl
  have channel : slice raw.bytes 1 3 = beBytes 2 raw.channelNumber.toNat :=
    slice_of_split [raw.frameType] _ (beBytes 4 raw.payload.length ++ raw.payload ++ [0xCE])
      (by simp [bytes]) rfl (by simp)
  have size : slice raw.bytes 3 7 = beBytes 4 raw.payload.length :=
    slice_of_split ([raw.frameType] ++ beBytes 2 raw.channelNumber.toNat) _
      (raw.payload ++ [0xCE]) (by simp [bytes]) (by simp) (by simp)
  have long : 7 ≤ raw.bytes.length := by
    rw [length_bytes]
    omega
  have number : beNat [raw.frameType] = raw.frameType.toNat := by simp [beNat]
  have channelFits : raw.channelNumber.toNat < 256 ^ 2 := raw.channelNumber.toNat_lt
  have payloadFits : raw.payload.length < 256 ^ 4 := raw.fits
  unfold frameHead
  rw [if_pos long, kind, channel, size, number, beNat_beBytes 2 _ channelFits,
    beNat_beBytes 4 _ payloadFits]

/-- What follows a complete frame does not matter. -/
theorem readFrame_bytes (rest : Bytes) : readFrame (raw.bytes ++ rest) =
    decodePayload raw.frameType.toNat raw.channelNumber.toNat (raw.payload.length + 8)
      raw.payload := by
  have size := raw.length_bytes
  have head : frameHead (raw.bytes ++ rest) =
      some (raw.frameType.toNat, raw.channelNumber.toNat, raw.payload.length) := by
    rw [frameHead_append (by omega), frameHead_bytes]
  have enough : ¬ (raw.bytes ++ rest).length < 7 + raw.payload.length + 1 := by
    rw [List.length_append]
    omega
  have marker : slice (raw.bytes ++ rest) (7 + raw.payload.length + 1 - 1)
      (7 + raw.payload.length + 1) = [0xCE] :=
    slice_of_split ([raw.frameType] ++ beBytes 2 raw.channelNumber.toNat ++
      beBytes 4 raw.payload.length ++ raw.payload) _ rest (by simp [bytes])
      (by simp; omega) (by simp; omega)
  have payload : slice (raw.bytes ++ rest) 7 (7 + raw.payload.length + 1 - 1) = raw.payload :=
    slice_of_split ([raw.frameType] ++ beBytes 2 raw.channelNumber.toNat ++
      beBytes 4 raw.payload.length) _ ([0xCE] ++ rest) (by simp [bytes])
      (by simp) (by simp)
  have total : 7 + raw.payload.length + 1 = raw.payload.length + 8 := by omega
  unfold readFrame
  simp only [head]
  rw [if_neg enough, marker, if_neg (by simp), payload, total]

theorem readFrame_whole {f : FrameValue} (decodes : raw.Decodes f) (rest : Bytes) :
    readFrame (raw.bytes ++ rest) = .ok (some f) :=
  (raw.readFrame_bytes rest).trans decodes

/-- The beginning of a frame is not read yet, whatever its payload. -/
theorem readFrame_part {p : Bytes} (part : p <+: raw.bytes)
    (short : p.length < raw.bytes.length) : readFrame p = .ok none := by
  by_cases head : 7 ≤ p.length
  · obtain ⟨q, split⟩ := part
    have same : frameHead p =
        some (raw.frameType.toNat, raw.channelNumber.toNat, raw.payload.length) := by
      rw [← frameHead_append head q, split, frameHead_bytes]
    rw [length_bytes] at short
    have missing : p.length < 7 + raw.payload.length + 1 := by omega
    unfold readFrame
    simp only [same]
    rw [if_pos missing]
  · have none : frameHead p = none := if_neg head
    unfold readFrame
    simp only [none]

end RawFrame

/-- A frame value has the size of the frame it was decoded from. -/
theorem size_of_decodePayload {frameType channelNumber frameSize : Nat} {payload : Bytes}
    {f : FrameValue} (h : decodePayload frameType channelNumber frameSize payload = .ok (some f)) :
    f.size = frameSize := by
  unfold decodePayload at h
  split at h
  · obtain ⟨methodId, _, h⟩ := except_bind_eq_ok.mp h
    obtain ⟨method, made, h⟩ := except_bind_eq_ok.mp h
    obtain ⟨id, _, made⟩ := except_bind_eq_ok.mp made
    obtain ⟨properties, _, made⟩ := except_bind_eq_ok.mp made
    cases made
    cases h
    rfl
  · split at h
    · cases h
      rfl
    · split at h
      · obtain ⟨classId, _, h⟩ := except_bind_eq_ok.mp h
        obtain ⟨bodySize, _, h⟩ := except_bind_eq_ok.mp h
        obtain ⟨flags, _, h⟩ := except_bind_eq_ok.mp h
        obtain ⟨header, made, h⟩ := except_bind_eq_ok.mp h
        obtain ⟨values, _, made⟩ := except_bind_eq_ok.mp made
        cases made
        cases h
        rfl
      · split at h
        · cases h
          rfl
        · cases h

@[simp] theorem frameReader_read : frameReader.read = readFrame := rfl

@[simp] theorem frameReader_size : frameReader.size = FrameValue.size := rfl

/-- The reader of frames answers for a complete frame and for nothing less. -/
theorem RawFrame.exact {raw : RawFrame} {f : FrameValue} (decodes : raw.Decodes f) :
    Framing.Exact frameReader raw.bytes f where
  pos := raw.bytes_ne_nil
  size := by
    rw [frameReader_size, raw.length_bytes]
    exact size_of_decodePayload decodes
  whole := by
    intro rest
    rw [frameReader_read]
    exact raw.readFrame_whole decodes rest
  part := by
    intro p part short
    rw [frameReader_read]
    exact raw.readFrame_part part short

/-- A proper beginning of a frame waits for more. -/
theorem RawFrame.waiting (raw : RawFrame) {tail : Bytes} (part : tail <+: raw.bytes)
    (strict : tail ≠ raw.bytes) : Framing.Waiting frameReader tail := by
  right
  rw [frameReader_read]
  refine raw.readFrame_part part (lt_of_le_of_ne part.length_le fun same => strict ?_)
  exact part.eq_of_length same

/-! ## Treating frames in a row -/

/-- The frame treated, and nothing else. -/
def Event.treated (c : ConnId) : Event → Option FrameValue
  | .frame c' _ f => if c' = c then some f else none
  | _ => none

/-- The frame is treated without an exception, and the connection stays open. -/
def Treatable (env : Env) (c : ConnId) (b : Broker) (f : FrameValue) : Prop :=
  (match dispatch env c f b with
    | .ok _ b' => !b'.isClosing c
    | .error _ _ => false) = true

instance (env : Env) (c : ConnId) (b : Broker) (f : FrameValue) :
    Decidable (Treatable env c b f) := inferInstanceAs (Decidable (_ = true))

theorem treatable_iff {env : Env} {c : ConnId} {b : Broker} {f : FrameValue} :
    Treatable env c b f ↔
      ∃ go b', dispatch env c f b = .ok go b' ∧ b'.isClosing c = false := by
  unfold Treatable
  cases dispatch env c f b with
  | ok go b' => simp
  | error e b' => simp

/-- The record of a frame that is treated. -/
def Broker.recorded (b : Broker) (c : ConnId) (f : FrameValue) : Broker :=
  { b with trace := b.trace ++ [.frame c (b.trackers c).parserState f] }

section
variable {env : Env} {c : ConnId} {b b' : Broker} {f : FrameValue} {go : Bool}

/-- In an opened connection a frame on channel 0 is passed over, except for a heartbeat and a
connection.close. -/
theorem dispatch_opened (opened : (b.trackers c).parserState = .opened)
    (hn : f.channelNumber = 0) (notBeat : ∀ size, f ≠ .heartBeat size)
    (hm : f.methodId ≠ some .connectionClose) :
    dispatch env c f b = .ok true (b.recorded c f) := by
  rw [Broker.recorded, opened]
  cases f with
  | heartBeat size => exact absurd rfl (notBeat size)
  | _ =>
      simp only [dispatch, bind_apply, read_apply, opened, if_neg (not_not_intro hn), if_neg hm]
      rfl

theorem dispatch_heartBeat (size : Nat) : dispatch env c (.heartBeat size) b =
    (do reply c .heartbeat; return true : OnBroker Bool) (b.recorded c (.heartBeat size)) := rfl

theorem dispatch_connectionClose (hn : f.channelNumber = 0)
    (hm : f.methodId = some .connectionClose) : dispatch env c f b =
      (do reply c .connectionCloseOk; close c; return false : OnBroker Bool)
        (b.recorded c f) := by
  cases f with
  | method m =>
      simp only [dispatch, bind_apply, read_apply, if_neg (not_not_intro hn), if_pos hm]
      rfl
  | _ => cases hm

/-- The loop goes on after a frame that leaves the connection open. -/
theorem dispatch_continues (opened : (b.trackers c).parserState = .opened)
    (done : dispatch env c f b = .ok go b') (live : b'.isClosing c = false) : go = true := by
  by_cases hn : f.channelNumber = 0
  · by_cases beat : ∃ size, f = .heartBeat size
    · obtain ⟨size, rfl⟩ := beat
      rw [dispatch_heartBeat] at done
      obtain ⟨_, _, _, ended⟩ := bind_eq_ok.mp done
      cases ended
      rfl
    · by_cases hm : f.methodId = some .connectionClose
      · rw [dispatch_connectionClose hn hm] at done
        obtain ⟨_, b1, _, ended⟩ := bind_eq_ok.mp done
        have closed : b' = after (close c) b1 := by
          cases ended
          rfl
        rw [closed, isClosing_close] at live
        cases live
      · rw [dispatch_opened opened hn (fun size no => beat ⟨size, no⟩) hm] at done
        cases done
        rfl
  · rw [dispatch_channel hn] at done
    obtain ⟨_, _, _, ended⟩ := bind_eq_ok.mp done
    cases ended
    rfl

/-- Events that record no frame of `c`. -/
def Untreated (c : ConnId) (e : Event) : Prop := e.treated c = none

/-- What follows the record of a frame in an opened connection records no frame. -/
theorem dispatch_untreated (env : Env) (f : FrameValue)
    (opened : (b.trackers c).parserState = .opened) :
    ∃ b1, b1.trace = b.trace ++ [.frame c .opened f] ∧
      ByConn c (Untreated c) b1 (after (dispatch env c f) b) := by
  have hp := byConn_progress c (Untreated c)
  have replied : ∀ r, Within (ByConn c (Untreated c)) (reply c r) := fun r => byConn_reply rfl
  by_cases hn : f.channelNumber = 0
  · refine ⟨b.recorded c f, by rw [Broker.recorded, opened], ?_⟩
    by_cases beat : ∃ size, f = .heartBeat size
    · obtain ⟨size, rfl⟩ := beat
      rw [after_congr (dispatch_heartBeat size)]
      exact within_bind hp (replied _) (fun _ => within_pure hp _) _
    · by_cases hm : f.methodId = some .connectionClose
      · rw [after_congr (dispatch_connectionClose hn hm)]
        have closed : Within (ByConn c (Untreated c)) (close c) :=
          byConn_onTransport fun _ _ => rfl
        refine within_bind hp (replied _) (fun _ => ?_) _
        exact within_bind hp closed (fun _ => within_pure hp _)
      · rw [after_ok (dispatch_opened opened hn (fun size no => beat ⟨size, no⟩) hm)]
        exact hp.refl _
  · refine ⟨b.received c f, by rw [b.received_trace, opened], ?_⟩
    rw [after_dispatch_channel hn]
    have steps : RespectsChannel c f (ByConn c (Untreated c)) :=
      byConn_respects (fun _ _ => rfl) (fun _ => rfl)
    have once : Once (ByConn c (Untreated c)) (Called env c f) (b.received c f)
        (after (treatFrameOn env c (b.channel c f.channelNumber) f) (b.received c f)) :=
      treatFrameOn_once steps hn _ _
    refine once.within hp ?_
    rintro b1 b2 ⟨op, _, rfl⟩
    exact byConn_call env (fun _ => rfl) b1

end

/-! ## Streams of frames -/

/-- The broker after the frames, each treated in the state its predecessor left. -/
def treatAll (env : Env) (c : ConnId) (b : Broker) (frames : List FrameValue) : Broker :=
  Runs.run (fun b f => after (dispatch env c f) b) b frames

section
variable {env : Env} {c : ConnId} {b : Broker}

variable (env) in
theorem treatAll_opened (frames : List FrameValue)
    (opened : (b.trackers c).parserState = .opened) :
    ((treatAll env c b frames).trackers c).parserState = .opened :=
  Runs.invariant (I := fun b : Broker => (b.trackers c).parserState = .opened)
    (fun b f h => dispatch_keepsParser env (P := (· = .opened)) (by
      rintro s s' next rfl
      cases next) f b h) opened frames

theorem treatAll_records {frames : List FrameValue}
    (opened : (b.trackers c).parserState = .opened) :
    ∃ new, (treatAll env c b frames).trace = b.trace ++ new ∧
      new.filterMap (Event.treated c) = frames := by
  induction frames generalizing b with
  | nil => exact ⟨[], by simp [treatAll], rfl⟩
  | cons f rest ih =>
      obtain ⟨b1, record, moved⟩ := dispatch_untreated env f opened
      obtain ⟨new, trace, untreated⟩ := moved.events
      have opened' := treatAll_opened env [f] opened
      obtain ⟨more, trace', treated⟩ := ih (b := after (dispatch env c f) b) opened'
      refine ⟨.frame c .opened f :: (new ++ more), ?_, ?_⟩
      · have split : treatAll env c b (f :: rest) =
            treatAll env c (after (dispatch env c f) b) rest := rfl
        rw [split, trace', trace, record]
        simp
      · have none : new.filterMap (Event.treated c) = [] :=
          List.filterMap_eq_nil_iff.mpr untreated
        rw [List.filterMap_cons_some (show (Event.frame c .opened f).treated c = some f from
          if_pos rfl), List.filterMap_append, none, treated]
        rfl

/-- Treatable frames are all handled by the loop. -/
theorem handleAll_treatable {frames : List FrameValue}
    (opened : (b.trackers c).parserState = .opened)
    (treatable : Runs.Along (fun b f => after (dispatch env c f) b) (Treatable env c) b frames) :
    Framing.handleAll (dispatch env c) frames b = some (treatAll env c b frames) := by
  induction frames generalizing b with
  | nil => rfl
  | cons f rest ih =>
      obtain ⟨go, b', done, live⟩ := treatable_iff.mp treatable.1
      have opened' := treatAll_opened env [f] opened
      have goes := dispatch_continues opened done live
      subst goes
      have later := treatable.2
      simp only [treatAll, Runs.run_nil, Runs.run_cons, after_ok done] at opened' later ⊢
      simp only [Framing.handleAll, done]
      exact ih opened' later

theorem treatAll_live {frames : List FrameValue} (live : b.isClosing c = false)
    (treatable : Runs.Along (fun b f => after (dispatch env c f) b) (Treatable env c) b frames) :
    (treatAll env c b frames).isClosing c = false :=
  Runs.invariant_along (I := fun b : Broker => b.isClosing c = false) (by
    intro b f _ h
    obtain ⟨go, b', done, live⟩ := treatable_iff.mp h
    rwa [after_ok done]) live treatable

variable (env) in
/-- Treating frames does not reopen the connection. -/
theorem treatAll_closing (frames : List FrameValue) (closing : b.isClosing c = true) :
    (treatAll env c b frames).isClosing c = true :=
  Runs.invariant (I := fun b : Broker => b.isClosing c = true)
    (fun b f h => (dispatch_byConn env c f b).closing h) closing frames

/-- One delivery in an opened connection treats some frames. -/
theorem feed_treatAll {chunk buf left : Bytes} {b' : Broker}
    (fed : Framing.feed frameReader (dispatch env c) chunk (buf, b) = .ok () (left, b')) :
    ∃ frames, b' = treatAll env c b frames := by
  have drained := Framing.after_drain frameReader (dispatch env c) (buf ++ chunk).length
    (buf ++ chunk) b
  have ended : after (Framing.drain frameReader (dispatch env c) (buf ++ chunk).length)
      (buf ++ chunk, b) = (left, b') := after_ok fed
  rw [ended] at drained
  exact ⟨_, drained⟩

theorem feedAll_treatAll {chunks : List Bytes} {buf left : Bytes} {b' : Broker}
    (fed : Framing.feedAll frameReader (dispatch env c) chunks (buf, b) = .ok () (left, b')) :
    ∃ frames, b' = treatAll env c b frames := by
  induction chunks generalizing buf b with
  | nil =>
      cases fed
      exact ⟨[], rfl⟩
  | cons chunk rest ih =>
      obtain ⟨_, ⟨buf1, b1⟩, first, later⟩ := bind_eq_ok.mp fed
      obtain ⟨frames, treated⟩ := feed_treatAll first
      obtain ⟨more, ended⟩ := ih later
      refine ⟨frames ++ more, ?_⟩
      rw [treatAll, Runs.run_append, ended, treated]
      rfl

/-- Deliveries that leave the connection open come to the loop over frames. -/
theorem deliver_of_feedAll {s : Server} {chunks : List Bytes} {left : Bytes} {b' : Broker}
    (opened : (s.broker.trackers c).parserState = .opened)
    (fed : Framing.feedAll frameReader (dispatch env c) chunks (s.buffers c, s.broker) =
      .ok () (left, b')) (live : b'.isClosing c = false) :
    s.deliver env c chunks =
      { broker := b', buffers := Function.update s.buffers c left } := by
  induction chunks generalizing s with
  | nil =>
      cases fed
      rw [deliver_nil, Function.update_eq_self]
  | cons chunk rest ih =>
      obtain ⟨_, ⟨buf, b1⟩, first, later⟩ := bind_eq_ok.mp fed
      obtain ⟨frames, treated⟩ := feed_treatAll first
      have opened1 : (b1.trackers c).parserState = .opened :=
        treated ▸ treatAll_opened env frames opened
      have running : s.broker.isClosing c = false := by
        by_contra closing
        obtain ⟨all, whole⟩ := feedAll_treatAll fed
        have closed := treatAll_closing env all (by simpa using closing)
        rw [← whole, live] at closed
        cases closed
      have started : (s.broker.trackers c).parserState ≠ .waitingProtocolHeader := by
        rw [opened]
        simp
      have received : dataReceived env c chunk (s.buffers c, s.broker) = .ok () (buf, b1) :=
        (dataReceived_frames started).trans first
      have step : Server.step env s (.dataReceived c chunk) =
          { broker := b1, buffers := Function.update s.buffers c buf } := by
        simp only [Server.step, running, Bool.false_eq_true, if_false]
        rw [after_ok received]
      rw [deliver_cons, step]
      have ended := ih (s := { broker := b1, buffers := Function.update s.buffers c buf })
        opened1 (by simpa using later)
      simpa using ended

end

/-- The connection has treated the frames, each once and in order, and kept the rest. -/
structure Treats (env : Env) (c : ConnId) (s s' : Server) (frames : List FrameValue)
    (rest : Bytes) : Prop where
  buffer : s'.buffers c = rest
  broker : s'.broker = treatAll env c s.broker frames
  records : ∃ new, s'.broker.trace = s.broker.trace ++ new ∧
    new.filterMap (Event.treated c) = frames

/-- A stream of complete frames and the beginning of another one, however it is cut and whether
or not some of it is in the buffer already, is treated frame by frame, and the beginning stays in
the buffer. -/
theorem deliver_treats (env : Env) {s : Server} {c : ConnId}
    (opened : (s.broker.trackers c).parserState = .opened)
    (live : s.broker.isClosing c = false) (waiting : Framing.Waiting frameReader (s.buffers c))
    {frames : List (RawFrame × FrameValue)} (decodes : ∀ p ∈ frames, p.1.Decodes p.2)
    (treatable : Runs.Along (fun b f => after (dispatch env c f) b) (Treatable env c) s.broker
      (frames.map Prod.snd))
    {tail : Bytes} {next : RawFrame} (part : tail <+: next.bytes) (strict : tail ≠ next.bytes)
    {chunks : List Bytes}
    (cut : s.buffers c ++ chunks.flatten = (frames.map fun p => p.1.bytes).flatten ++ tail) :
    Treats env c s (s.deliver env c chunks) (frames.map Prod.snd) tail := by
  have beginnings : ∀ p, p <+: tail → Framing.Waiting frameReader p := by
    intro p before
    refine next.waiting (before.trans part) fun same => strict ?_
    exact part.eq_of_length_le (same ▸ before.length_le)
  have items : ∀ i ∈ frames.map fun p => (p.1.bytes, p.2), Framing.Exact frameReader i.1 i.2 := by
    intro i hi
    obtain ⟨p, hp, rfl⟩ := List.mem_map.mp hi
    exact RawFrame.exact (decodes p hp)
  have handled := handleAll_treatable opened treatable
  have fed : Framing.feedAll frameReader (dispatch env c) chunks (s.buffers c, s.broker) =
      .ok () (tail, treatAll env c s.broker (frames.map Prod.snd)) :=
    Framing.feedAll_exact beginnings items waiting (by simpa [Function.comp_def] using cut)
      (by simpa [Function.comp_def] using handled)
  rw [deliver_of_feedAll opened fed (treatAll_live live treatable)]
  exact ⟨Function.update_self .., rfl, treatAll_records opened⟩

/-- A heartbeat, a basic.qos and a body frame that holds end markers, with their bytes. -/
def threeFrames : List (RawFrame × FrameValue) :=
  [(⟨8, 0, [], by decide⟩, .heartBeat 8),
    (⟨1, 1, [0, 60, 0, 10, 0, 0, 0, 0, 0, 1, 0], by decide⟩,
      .method { channelNumber := 1, size := 19, methodId := .basicQos,
                properties := .ofList [(.prefetchSize, .int 0), (.prefetchCount, .int 1),
                  (.global, .bool false)] }),
    (⟨3, 1, [0xCE, 1, 0xCE], by decide⟩,
      .body { channelNumber := 1, size := 11, content := [0xCE, 1, 0xCE] })]

set_option maxRecDepth 4000 in
theorem deliver_treats_three_frames :
    Treats guestEnv 0 (session (logIn 0))
      ((session (logIn 0)).deliver guestEnv 0
        [[8, 0, 0, 0, 0, 0], [0, 0xCE, 1, 0, 1, 0, 0, 0, 11, 0, 60, 0, 10, 0, 0, 0, 0, 0, 1, 0],
          [0xCE, 3, 0, 1, 0, 0, 0, 3, 0xCE, 1, 0xCE, 0xCE, 1, 0]])
      (threeFrames.map Prod.snd) [1, 0] := by
  have facts : ((session (logIn 0)).broker.trackers 0).parserState = .opened ∧
      (session (logIn 0)).broker.isClosing 0 = false ∧ (session (logIn 0)).buffers 0 = [] ∧
      Runs.Along (fun b f => after (dispatch guestEnv 0 f) b) (Treatable guestEnv 0)
        (session (logIn 0)).broker (threeFrames.map Prod.snd) := by
    decide +kernel
  obtain ⟨opened, live, empty, treatable⟩ := facts
  have decodes : ∀ p ∈ threeFrames, p.1.Decodes p.2 := by
    simp only [threeFrames, List.forall_mem_cons, List.not_mem_nil, false_implies, implies_true,
      and_true]
    exact ⟨rfl, rfl, rfl⟩
  let next : RawFrame := ⟨1, 0, [], by decide⟩
  have part : [1, 0] <+: next.bytes := by decide
  have strict : [1, 0] ≠ next.bytes := by decide
  have cut : [[8, 0, 0, 0, 0, 0],
      [0, 0xCE, 1, 0, 1, 0, 0, 0, 11, 0, 60, 0, 10, 0, 0, 0, 0, 0, 1, 0],
      [0xCE, 3, 0, 1, 0, 0, 0, 3, 0xCE, 1, 0xCE, 0xCE, 1, 0]].flatten =
        (threeFrames.map fun p => p.1.bytes).flatten ++ [1, 0] := by decide
  exact deliver_treats guestEnv opened live (.inl empty) decodes treatable part strict
    (by rw [empty]; exact cut)

end MockAmqp
