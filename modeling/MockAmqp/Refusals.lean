import MockAmqp.Frames
import MockAmqp.Handshake

/-!
# Unexpected frames during the handshake

After the start-ok a frame that is not expected closes the connection. Before it every such frame
raises.
-/

namespace MockAmqp
open Exec

/-- The method that a state of the handshake waits for. -/
def ConnectionState.expects : ConnectionState → Option MethodId
  | waitingStartOk => some .startOk
  | waitingTuneOk => some .tuneOk
  | waitingOpen => some .connectionOpen
  | _ => none

/-- A method, header or body frame on channel 0 that is neither a connection.close nor the method
that a state of the handshake waits for. -/
structure Unexpected (s : ConnectionState) (raw : RawFrame) (f : FrameValue) : Prop where
  decodes : raw.Decodes f
  channel : f.channelNumber = 0
  kind : ∀ size, f ≠ .heartBeat size
  close : f.methodId ≠ some .connectionClose
  method : ∃ m, s.expects = some m ∧ f.methodId ≠ some m

/-- `data_received` returns, and the transport is closed, with the states of the connection and of
the server as they were and nothing written. -/
def RefusesCleanly (env : Env) (c : ConnId) (data buffer : Bytes) (b : Broker) : Prop :=
  ∃ buffer' b', dataReceived env c data (buffer, b) = .ok () (buffer', b') ∧
    b'.isClosing c = true ∧ (b'.trackers c).parserState = (b.trackers c).parserState ∧
    b'.state = b.state ∧
    ∀ c', (b'.trackers c').transport.written = (b.trackers c').transport.written

section
variable {env : Env} {c : ConnId} {b : Broker} {raw : RawFrame} {f : FrameValue}

variable (env) in
/-- In the states after the start-ok the connection is closed. -/
theorem dispatch_refused (unexpected : Unexpected (b.trackers c).parserState raw f)
    (later : (b.trackers c).parserState ≠ .waitingStartOk) :
    dispatch env c f b = .ok false (after (close c) (b.recorded c f)) := by
  obtain ⟨_, hn, kind, hm, m, expected, other⟩ := unexpected
  cases state : (b.trackers c).parserState with
  | waitingTuneOk =>
      rw [state] at expected
      cases expected
      cases f with
      | heartBeat size => exact absurd rfl (kind size)
      | _ =>
          simp only [dispatch, bind_apply, read_apply, state, if_neg (not_not_intro hn), if_neg hm,
            if_pos other, Broker.recorded]
          rfl
  | waitingOpen =>
      rw [state] at expected
      cases expected
      cases f with
      | heartBeat size => exact absurd rfl (kind size)
      | _ =>
          simp only [dispatch, bind_apply, read_apply, state, if_neg (not_not_intro hn), if_neg hm,
            if_pos other, Broker.recorded]
          rfl
  | waitingStartOk => exact absurd state later
  | _ =>
      rw [state] at expected
      cases expected

variable (env) in
/-- Only a start-ok has a mechanism, and any other frame raises for want of one. -/
theorem dispatch_raises (unexpected : Unexpected (b.trackers c).parserState raw f)
    (state : (b.trackers c).parserState = .waitingStartOk) :
    ∃ e, dispatch env c f b = .error e (b.recorded c f) := by
  obtain ⟨decodes, hn, kind, hm, m, expected, other⟩ := unexpected
  rw [state] at expected
  cases expected
  have decoded : readFrame raw.bytes = .ok (some f) := by
    have whole := raw.readFrame_whole decodes []
    rwa [List.append_nil] at whole
  cases argued : f.arg .mechanism with
  | ok v => exact absurd (startOk_of_mechanism decoded argued) other
  | error e =>
      have text : f.argStr .mechanism = .error e := by
        unfold FrameValue.argStr
        rw [argued]
        rfl
      refine ⟨e, ?_⟩
      cases f with
      | heartBeat size => exact absurd rfl (kind size)
      | _ =>
          simp only [dispatch, bind_apply, read_apply, state, if_neg (not_not_intro hn), if_neg hm,
            checkStartOk, text, attempt_error, Broker.recorded]
          rfl

variable (env) in
/-- After the protocol header the loop over frames begins with the first of them. -/
theorem dataReceived_first {data buffer rest : Bytes}
    (started : (b.trackers c).parserState ≠ .waitingProtocolHeader)
    (stream : buffer ++ data = raw.bytes ++ rest) : ∃ fuel, dataReceived env c data (buffer, b) =
      Framing.drain frameReader (dispatch env c) (fuel + 1) (raw.bytes ++ rest, b) := by
  refine ⟨(raw.bytes ++ rest).length - 1, ?_⟩
  have positive : (raw.bytes ++ rest).length - 1 + 1 = (raw.bytes ++ rest).length := by
    rw [List.length_append, raw.length_bytes]
    omega
  rw [dataReceived_frames started, Framing.feed, stream, positive]

theorem Unexpected.started {s : ConnectionState} (unexpected : Unexpected s raw f) :
    s ≠ .waitingProtocolHeader := by
  obtain ⟨m, expected, _⟩ := unexpected.method
  rintro rfl
  cases expected

theorem not_refused {data buffer rest : Bytes}
    (unexpected : Unexpected (b.trackers c).parserState raw f)
    (stream : buffer ++ data = raw.bytes ++ rest)
    (state : (b.trackers c).parserState = .waitingStartOk) : ¬ RefusesCleanly env c data buffer b := by
  obtain ⟨fuel, first⟩ := dataReceived_first env unexpected.started stream
  obtain ⟨e, raised⟩ := dispatch_raises env unexpected state
  rintro ⟨_, _, returned, _⟩
  rw [first, Framing.drain_raise (RawFrame.exact unexpected.decodes) raised] at returned
  cases returned

/-- An unexpected frame of the handshake is refused cleanly exactly if the connection does not wait
for a start-ok. -/
theorem refuses_cleanly_iff {data buffer rest : Bytes}
    (unexpected : Unexpected (b.trackers c).parserState raw f)
    (stream : buffer ++ data = raw.bytes ++ rest) :
    RefusesCleanly env c data buffer b ↔ (b.trackers c).parserState ≠ .waitingStartOk := by
  by_cases state : (b.trackers c).parserState = .waitingStartOk
  · exact iff_of_false (not_refused unexpected stream state) (not_not_intro state)
  · obtain ⟨fuel, first⟩ := dataReceived_first env unexpected.started stream
    have refused := dispatch_refused env unexpected state
    have stopped := Framing.drain_stop (RawFrame.exact unexpected.decodes) refused fuel rest
    have moved : (after (close c) (b.recorded c f)).trackers c = _ := (b.recorded c f).setTracker_self c _
    refine iff_of_true ⟨rest, _, first.trans stopped, isClosing_close _, ?_, rfl, ?_⟩ state
    · rw [moved]
      rfl
    · intro c'
      by_cases same : c' = c
      · subst same
        rw [moved]
        rfl
      · have other : (after (close c) (b.recorded c f)).trackers c' = _ :=
          (b.recorded c f).setTracker_ne same _
        rw [other]
        rfl

end

/-- A body frame on channel 0. -/
def strayBody : RawFrame where
  frameType := 3
  channelNumber := 0
  payload := []
  fits := Nat.two_pow_pos 32

theorem strayBody_unexpected {s : ConnectionState} {m : MethodId} (expects : s.expects = some m) :
    Unexpected s strayBody (.body { channelNumber := 0, size := 8, content := [] }) where
  decodes := rfl
  channel := rfl
  kind := by simp
  close := by simp [FrameValue.methodId]
  method := ⟨m, expects, by simp [FrameValue.methodId]⟩

/-- A connection that waits for a tune-ok. -/
def tuning : Broker :=
  (session []).broker.setTracker 0
    { (session []).broker.trackers 0 with parserState := .waitingTuneOk }

theorem refuses_stray_body : RefusesCleanly guestEnv 0 strayBody.bytes [] tuning ↔
    (tuning.trackers 0).parserState ≠ .waitingStartOk :=
  refuses_cleanly_iff (strayBody_unexpected (m := .tuneOk) rfl) (List.append_nil strayBody.bytes).symm

/-- A body frame instead of a start-ok. -/
theorem stray_body_raises : ¬ RefusesCleanly guestEnv 0 strayBody.bytes []
    (session [.dataReceived 0 PROTOCOL_HEADER]).broker := by
  have state : ((session [.dataReceived 0 PROTOCOL_HEADER]).broker.trackers 0).parserState =
      .waitingStartOk := by decide +kernel
  have unexpected : Unexpected _ strayBody _ := strayBody_unexpected (congrArg _ state)
  exact not_refused unexpected (List.append_nil strayBody.bytes).symm state

end MockAmqp
