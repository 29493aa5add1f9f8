import MockAmqp.Wire

/-!
# The announced frame size

The tune method announces a greatest frame size. A delivery writes its whole body in one frame,
also when the body is empty.
-/

namespace MockAmqp
open Exec

/-- The arguments in the frame of the tune method, after the eleven bytes before them. -/
def tuneArguments : List Val :=
  let sent := (after sendConnectionTune { written := [], closing := false }).written
  match loads "BlB".toList sent 11 with
  | .ok (values, _) => values
  | .error _ => []

/-- The frame-max that a client reads in the tune method. -/
def announcedFrameMax : Nat :=
  match tuneArguments with
  | [_, .int frameMax, _] => frameMax.toNat
  | _ => 0

theorem announcedFrameMax_eq : announcedFrameMax = 131072 := by decide +kernel

def bodyFrames (frames : List RawFrame) : List RawFrame := frames.filter (·.frameType = 3)

/-- What was written for a body are frames of the announced size at most, and the body frames among
them carry it; there are none for an empty body. -/
def RespectsFrameMax (data written : Bytes) : Prop :=
  ∃ frames : List RawFrame, written = (frames.map RawFrame.bytes).flatten ∧
    ((bodyFrames frames).map RawFrame.payload).flatten = data ∧
    (data = [] → bodyFrames frames = []) ∧ ∀ raw ∈ frames, raw.bytes.length ≤ announcedFrameMax

/-- The push of a body. -/
def Push.carrying (p : Push) (data : Bytes) : Push := { p with message := .bytes data }

/-- The body is not empty, and it and the content header fit the announced size; a push whose first
frame cannot be written writes nothing for an empty body. -/
def Push.FitsFrameMax (p : Push) (data : Bytes) : Prop :=
  if p.delivers = true then data ≠ [] ∧ data.length + 8 ≤ announcedFrameMax ∧
    ∃ arguments, headerArguments p.headers data.length = .ok arguments ∧
      arguments.length + 8 ≤ announcedFrameMax
  else data = []

section
variable {p : Push} {data : Bytes}

/-- A method with few arguments is a small frame. -/
theorem sendMethod_fits {n classId methodId : Nat} {arguments : Bytes} (small : n < 256)
    (few : arguments.length ≤ 1280) : ∃ raw : RawFrame, raw.frameType = 1 ∧
      raw.bytes.length ≤ announcedFrameMax ∧
      ∀ t, sendMethod n classId methodId arguments t = .ok () (t.put raw.bytes) := by
  have size : ([0, UInt8.ofNat classId, 0, UInt8.ofNat methodId] ++ arguments).length =
      4 + arguments.length := List.length_append
  have fits : ([0, UInt8.ofNat classId, 0, UInt8.ofNat methodId] ++ arguments).length < 2 ^ 32 := by
    omega
  refine ⟨smallFrame 1 n _ fits, rfl, ?_, sendMethod_small small fits⟩
  have payload : (smallFrame 1 n _ fits).payload.length = 4 + arguments.length := size
  rw [RawFrame.length_bytes, announcedFrameMax_eq, payload]
  omega

/-- The deliver method is a small frame. -/
theorem Push.deliver_small (h : p.delivers = true) : ∃ raw : RawFrame, raw.frameType = 1 ∧
    raw.bytes.length ≤ announcedFrameMax ∧ ∀ t, p.deliver t = .ok () (t.put raw.bytes) := by
  have small := Push.delivers_channel h
  unfold Push.delivers at h
  unfold Push.deliver sendBasicDeliver sendMethodArgs
  cases encoded : dumps "sLbss".toList [.str p.consumerTag, .int p.deliveryTag, .bool false,
      .str p.exchangeName, .str []] with
  | error e =>
      rw [encoded] at h
      cases h
  | ok arguments =>
      have bound : arguments.length ≤ 256 * 5 := dumps_size (allShort rfl) encoded
      rw [attempt_bind_ok]
      exact sendMethod_fits small bound

/-- The frames of a delivery, one of each kind, respect the announced size exactly if the body is
not empty and they do so each. -/
theorem three_respect_iff {deliver header body : RawFrame} (first : deliver.frameType = 1)
    (second : header.frameType = 2) (third : body.frameType = 3)
    (small : deliver.bytes.length ≤ announcedFrameMax) :
    RespectsFrameMax body.payload (deliver.bytes ++ (header.bytes ++ body.bytes)) ↔
      body.payload ≠ [] ∧ body.bytes.length ≤ announcedFrameMax ∧
        header.bytes.length ≤ announcedFrameMax := by
  have carries : bodyFrames [deliver, header, body] = [body] := by
    simp [bodyFrames, first, second, third]
  constructor
  · rintro ⟨frames, same, _, none, within⟩
    have only : frames = [deliver, header, body] := by
      apply RawFrame.flatten_injective
      simpa using same.symm
    subst only
    rw [carries] at none
    refine ⟨fun empty => ?_, within body (by simp), within header (by simp)⟩
    cases none empty
  · rintro ⟨full, small', small''⟩
    refine ⟨[deliver, header, body], by simp, ?_, fun empty => absurd empty full, ?_⟩
    · rw [carries]
      simp
    · simp [small, small', small'']

/-- Nothing at all respects the announced size of an empty body. -/
theorem nothing_respects_iff : RespectsFrameMax data [] ↔ data = [] := by
  constructor
  · rintro ⟨frames, same, carried, _⟩
    have none : frames = [] := by
      apply RawFrame.flatten_injective
      simpa using same.symm
    subst none
    exact carried.symm
  · rintro rfl
    exact ⟨[], rfl, rfl, fun _ => rfl, by simp⟩

/-- A body and a content header of the announced size can be encoded. -/
theorem encodes_of_fits {arguments : Bytes} (size : data.length + 8 ≤ announcedFrameMax)
    (encoded : headerArguments p.headers data.length = .ok arguments)
    (size' : arguments.length + 8 ≤ announcedFrameMax) : (p.carrying data).encodes = true := by
  rw [announcedFrameMax_eq] at size size'
  exact Push.encodes_iff.mpr ⟨data, arguments, rfl, by omega, encoded, by omega⟩

variable (p data) in
theorem carrying_sent (b : Broker) :
    ((after (pushMessage (p.carrying data)) b).trackers p.protocol).transport =
      after (p.carrying data).send (b.trackers p.protocol).transport := by
  rw [after_pushMessage]
  exact congrArg Tracker.transport (Broker.setTracker_self _ _ _)

/-- A push whose first frame can be written. -/
theorem delivered_respects_iff (delivers : p.delivers = true) (t : Transport) :
    (∃ written, (after (p.carrying data).send t).written = t.written ++ written ∧
        RespectsFrameMax data written) ↔ p.FitsFrameMax data := by
  obtain ⟨deliver, first, small, sent⟩ := Push.deliver_small delivers
  have channel : (p.carrying data).channelNumber < 256 := Push.delivers_channel delivers
  have begun : after (p.carrying data).send t =
      after (p.carrying data).content (t.put deliver.bytes) := after_congr (bind_ok (sent t))
  rw [begun, Push.FitsFrameMax, if_pos delivers]
  cases encodes : (p.carrying data).encodes with
  | true =>
      obtain ⟨data', arguments, same, fits, encoded, fits'⟩ := Push.encodes_iff.mp encodes
      cases same
      let header := smallFrame 2 p.channelNumber arguments fits'
      let body := smallFrame 3 p.channelNumber data fits
      have written : (after (p.carrying data).content (t.put deliver.bytes)).written =
          t.written ++ (deliver.bytes ++ (header.bytes ++ body.bytes)) := by
        rw [after_ok (Push.content_sent channel rfl fits encoded fits' _), Transport.put_put]
        rfl
      have lengths : header.bytes.length = arguments.length + 8 ∧
          body.bytes.length = data.length + 8 := ⟨header.length_bytes, body.length_bytes⟩
      have respect := three_respect_iff first (rfl : header.frameType = 2)
        (rfl : body.frameType = 3) small
      rw [lengths.1, lengths.2] at respect
      constructor
      · rintro ⟨new, same, respects⟩
        rw [written] at same
        rw [← List.append_cancel_left same] at respects
        obtain ⟨full, size, size'⟩ := respect.mp respects
        exact ⟨full, size, arguments, encoded, size'⟩
      · rintro ⟨full, size, arguments', encoded', size'⟩
        cases Except.ok.inj (encoded.symm.trans encoded')
        exact ⟨_, written, respect.mpr ⟨full, size, size'⟩⟩
  | false =>
      obtain ⟨cut, ⟨e, failed⟩, unframed⟩ := Push.content_cut channel encodes
      have sized : (p.carrying data).message.len = .ok data.length := rfl
      rw [after_error (failed _), Transport.put_put, Transport.put_written]
      constructor
      · rintro ⟨new, same, frames, flat, _⟩
        have framed : Framed (deliver.bytes ++ cut) := ⟨frames, (List.append_cancel_left same).trans flat⟩
        obtain ⟨_, e', none⟩ := unframed framed.of_append
        rw [sized] at none
        cases none
      · rintro ⟨_, size, arguments, encoded, size'⟩
        rw [encodes_of_fits size encoded size'] at encodes
        cases encodes

end

/-- What a push writes respects the announced frame size exactly if the body is not empty, and it
and the content header fit that size. -/
theorem delivery_respects_frameMax_iff (p : Push) (data : Bytes) (b : Broker) :
    (∃ written, ((after (pushMessage (p.carrying data)) b).trackers p.protocol).transport.written =
        (b.trackers p.protocol).transport.written ++ written ∧ RespectsFrameMax data written) ↔
      p.FitsFrameMax data := by
  rw [carrying_sent]
  cases delivers : p.delivers with
  | true => exact delivered_respects_iff delivers _
  | false =>
      obtain ⟨e, failed⟩ := Push.deliver_whole.2 delivers
      have nothing : after (p.carrying data).send (b.trackers p.protocol).transport =
          (b.trackers p.protocol).transport := by
        have raised : ∀ t, (p.carrying data).deliver t = .error e t := failed
        simp only [after, Push.send_eq, bind_apply, raised]
      rw [nothing, Push.FitsFrameMax, if_neg (by simp [delivers]), ← nothing_respects_iff]
      constructor
      · rintro ⟨new, same, respects⟩
        have empty := List.append_cancel_left ((List.append_nil _).trans same)
        rwa [← empty] at respects
      · intro respects
        exact ⟨[], (List.append_nil _).symm, respects⟩

/-- A delivery to a consumer on channel 1. -/
def plainPush : Push where
  queue := str "q"
  protocol := 0
  channelNumber := 1
  consumerTag := str "t"
  deliveryTag := 7
  headers := .dict []
  message := .bytes []
  exchangeName := []

/-- An empty body goes out in a body frame. -/
theorem empty_body_gets_a_frame :
    ¬ ∃ written, ((after (pushMessage (plainPush.carrying [])) (session oneConsumer).broker).trackers
        plainPush.protocol).transport.written =
      ((session oneConsumer).broker.trackers plainPush.protocol).transport.written ++ written ∧
        RespectsFrameMax [] written := by
  have delivers : plainPush.delivers = true := by decide +kernel
  rw [carrying_sent]
  intro claimed
  have fits := (delivered_respects_iff delivers _).mp claimed
  rw [Push.FitsFrameMax, if_pos delivers] at fits
  exact fits.1 rfl

end MockAmqp
