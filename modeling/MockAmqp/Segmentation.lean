import MockAmqp.Server

/-!
# The cut of a stream into segments

What a connection makes of the first bytes it receives, however they are cut.
-/

namespace MockAmqp
open Exec

/-- A way of cutting a stream into non-empty chunks. -/
structure Cut (stream : Bytes) (chunks : List Bytes) : Prop where
  whole : chunks.flatten = stream
  nonempty : ∀ chunk ∈ chunks, chunk ≠ []

/-- A connection that has received nothing. -/
structure Server.Fresh (s : Server) (c : ConnId) : Prop where
  tracker : s.broker.trackers c = Tracker.init
  buffer : s.buffers c = []

/-- The chunks arrive at connection `c`, one after the other. -/
def Server.deliver (env : Env) (c : ConnId) (s : Server) (chunks : List Bytes) : Server :=
  Runs.run (Server.step env) s (chunks.map (.dataReceived c))

structure SameOutcome (c : ConnId) (s s' : Server) : Prop where
  parserState : (s.broker.trackers c).parserState = (s'.broker.trackers c).parserState
  channels : (s.broker.trackers c).channels = (s'.broker.trackers c).channels
  buffer : s.buffers c = s'.buffers c
  state : s.broker.state = s'.broker.state
  written : (s.broker.trackers c).transport.written = (s'.broker.trackers c).transport.written

section
variable {env : Env} {c : ConnId}

theorem sameOutcome_of_eq {s s' : Server} (h : s = s') : SameOutcome c s s' := by
  subst h
  exact ⟨rfl, rfl, rfl, rfl, rfl⟩

@[simp] theorem deliver_nil (s : Server) : s.deliver env c [] = s := rfl

@[simp] theorem deliver_cons (s : Server) (chunk : Bytes) (rest : List Bytes) :
    s.deliver env c (chunk :: rest) =
      (Server.step env s (.dataReceived c chunk)).deliver env c rest := rfl

theorem isClosing_close (b : Broker) : (after (close c) b).isClosing c = true := by
  have moved : (after (close c) b).trackers c = _ := b.setTracker_self c _
  rw [Broker.isClosing, moved]

/-- A closing connection receives nothing. -/
theorem deliver_closing {s : Server} (closing : s.broker.isClosing c = true)
    (chunks : List Bytes) : s.deliver env c chunks = s := by
  induction chunks with
  | nil => rfl
  | cons chunk rest ih =>
      have ignored : Server.step env s (.dataReceived c chunk) = s := if_pos closing
      rw [deliver_cons, ignored, ih]

/-- One delivery before the protocol header is complete. -/
theorem step_header {s : Server} (live : s.broker.isClosing c = false)
    (waiting : (s.broker.trackers c).parserState = .waitingProtocolHeader) (chunk : Bytes) :
    Server.step env s (.dataReceived c chunk) =
      if (s.buffers c ++ chunk).length < PROTOCOL_HEADER.length then
        { s with buffers := Function.update s.buffers c (s.buffers c ++ chunk) }
      else if s.buffers c ++ chunk ≠ PROTOCOL_HEADER then
        { broker := after (close c) s.broker, buffers := Function.update s.buffers c [] }
      else { broker := after (greet c) s.broker, buffers := Function.update s.buffers c [] } := by
  have open_ : ¬ s.broker.isClosing c = true := by simp [live]
  simp only [Server.step, if_neg open_]
  rw [dataReceived_header waiting]
  by_cases short : (s.buffers c ++ chunk).length < PROTOCOL_HEADER.length
  · rw [if_pos short, if_pos short]
  · rw [if_neg short, if_neg short]
    by_cases other : s.buffers c ++ chunk ≠ PROTOCOL_HEADER
    · rw [if_pos other, if_pos other]
    · rw [if_neg other, if_neg other]

/-- What the stream leads to when it arrives as a whole. -/
def Server.outcome (c : ConnId) (s : Server) (stream : Bytes) : Server :=
  if stream.length < PROTOCOL_HEADER.length then
    { s with buffers := Function.update s.buffers c stream }
  else if stream ≠ PROTOCOL_HEADER then
    { broker := after (close c) s.broker, buffers := Function.update s.buffers c [] }
  else { broker := after (greet c) s.broker, buffers := Function.update s.buffers c [] }

/-- A stream that does not go on after a protocol header has one outcome, by induction on the
chunks that are still to come. -/
theorem deliver_outcome {stream : Bytes}
    (alone : ¬ (PROTOCOL_HEADER <+: stream ∧ stream ≠ PROTOCOL_HEADER)) {s : Server}
    (live : s.broker.isClosing c = false)
    (waiting : (s.broker.trackers c).parserState = .waitingProtocolHeader)
    (short : (s.buffers c).length < PROTOCOL_HEADER.length) {chunks : List Bytes}
    (nonempty : ∀ chunk ∈ chunks, chunk ≠ [])
    (whole : s.buffers c ++ chunks.flatten = stream) :
    s.deliver env c chunks = s.outcome c stream := by
  induction chunks generalizing s with
  | nil =>
      have all : stream = s.buffers c := by rw [← whole, List.flatten_nil, List.append_nil]
      rw [deliver_nil, Server.outcome, all, if_pos short, Function.update_eq_self]
  | cons chunk rest ih =>
      have split : (s.buffers c ++ chunk) ++ rest.flatten = stream := by
        rw [← whole, List.flatten_cons, List.append_assoc]
      have part : s.buffers c ++ chunk <+: stream := ⟨_, split⟩
      rw [deliver_cons, step_header live waiting]
      by_cases shorter : (s.buffers c ++ chunk).length < PROTOCOL_HEADER.length
      · rw [if_pos shorter]
        have later := ih (s := { s with
            buffers := Function.update s.buffers c (s.buffers c ++ chunk) }) live waiting
          (by simpa using shorter) (fun p hp => nonempty p (List.mem_cons_of_mem _ hp))
          (by simpa using split)
        rw [later]
        simp only [Server.outcome, Function.update_idem]
      · rw [if_neg shorter]
        have long : ¬ stream.length < PROTOCOL_HEADER.length := by
          have bound := part.length_le
          omega
        rw [Server.outcome, if_neg long]
        by_cases other : s.buffers c ++ chunk = PROTOCOL_HEADER
        · -- the header is complete, so nothing follows it
          have equal : stream = PROTOCOL_HEADER := by
            by_contra more
            exact alone ⟨other ▸ part, more⟩
          have last : rest = [] := by
            cases rest with
            | nil => rfl
            | cons piece rest =>
                refine absurd ?_ (nonempty piece (by simp))
                rw [other, equal] at split
                have none := List.append_right_eq_self.mp split
                simp only [List.flatten_cons, List.append_eq_nil_iff] at none
                exact none.1
          rw [if_neg (not_not_intro other), if_neg (not_not_intro equal), last, deliver_nil]
        · have differ : stream ≠ PROTOCOL_HEADER := by
            rintro rfl
            exact other (part.eq_of_length_le (by omega))
          rw [if_pos other, if_pos differ]
          exact deliver_closing (isClosing_close s.broker) rest

/-! ## Streams that go on after the protocol header -/

/-- The protocol header stays behind. -/
abbrev StaysStarted (c : ConnId) : Broker → Broker → Prop :=
  KeepsParser c (· ≠ .waitingProtocolHeader)

theorem dispatch_staysStarted (f : FrameValue) :
    Within (StaysStarted c) (dispatch env c f) := by
  refine dispatch_keepsParser env ?_ f
  intro s s' next _
  cases s <;> cases next <;> simp

/-- Bytes that arrive after the protocol header do not undo it. -/
theorem step_staysStarted (s : Server) (data : Bytes) :
    StaysStarted c s.broker (Server.step env s (.dataReceived c data)).broker := by
  intro started
  by_cases closing : s.broker.isClosing c = true
  · have ignored : Server.step env s (.dataReceived c data) = s := if_pos closing
    rwa [ignored]
  · have frames : ∃ frames : List FrameValue, Server.turns env s (.dataReceived c data) =
        frames.map (Turn.frame c) := by
      simp only [Server.turns, if_neg closing, if_neg started]
      exact ⟨_, rfl⟩
    obtain ⟨frames, turns⟩ := frames
    rw [Server.step_refines, turns]
    have run : ∀ (frames : List FrameValue) (b : Broker),
        StaysStarted c b (Runs.run (Turn.step env) b (frames.map (Turn.frame c))) := by
      intro frames
      induction frames with
      | nil => exact fun _ => id
      | cons f rest ih => exact fun b h => ih _ (dispatch_staysStarted f b h)
    exact run frames s.broker started

theorem connectionStart_encodes : ∃ arguments, dumps "ooFSS".toList [.int 0, .int 9,
    peerProperties, .str (str "PLAIN AMQPLAIN"), .str (str "en_US")] = .ok arguments ∧
      arguments.length < 2 ^ 31 := by
  have encodes : (dumps "ooFSS".toList [.int 0, .int 9, peerProperties,
      .str (str "PLAIN AMQPLAIN"), .str (str "en_US")]).toOption.any
        (fun arguments => decide (arguments.length < 2 ^ 31)) = true := by decide +kernel
  cases encoded : dumps "ooFSS".toList [.int 0, .int 9, peerProperties,
      .str (str "PLAIN AMQPLAIN"), .str (str "en_US")] with
  | error e =>
      rw [encoded] at encodes
      cases encodes
  | ok arguments =>
      rw [encoded] at encodes
      exact ⟨arguments, rfl, of_decide_eq_true encodes⟩

/-- The greeting of a connection is always written. -/
theorem connectionStart_sent (t : Transport) :
    ∃ t', Reply.connectionStart.send t = .ok () t' := by
  obtain ⟨arguments, encoded, small⟩ := connectionStart_encodes
  exact sendMethodArgs_small (by decide) encoded small t

theorem greet_started (b : Broker) :
    ((after (greet c) b).trackers c).parserState = .waitingStartOk := by
  obtain ⟨t, sent⟩ := connectionStart_sent (b.trackers c).transport
  unfold greet
  rw [after_congr (bind_ok (reply_ok sent))]
  have self : ∀ b1 : Broker, (after (setParserState c .waitingStartOk) b1).trackers c =
      { b1.trackers c with parserState := .waitingStartOk } := fun b1 => b1.setTracker_self c _
  rw [self]

end

/-- The outcome of a stream on a fresh connection does not depend on how the stream is cut, exactly
if the stream does not go on after a protocol header. -/
theorem segmentation_iff (env : Env) {s : Server} {c : ConnId} (fresh : s.Fresh c)
    (stream : Bytes) :
    (∀ cut cut', Cut stream cut → Cut stream cut' →
        SameOutcome c (s.deliver env c cut) (s.deliver env c cut')) ↔
      ¬ (PROTOCOL_HEADER <+: stream ∧ stream ≠ PROTOCOL_HEADER) := by
  have live : s.broker.isClosing c = false := by rw [Broker.isClosing, fresh.tracker]; rfl
  have waiting : (s.broker.trackers c).parserState = .waitingProtocolHeader := by
    rw [fresh.tracker]
    rfl
  constructor
  · rintro same ⟨⟨more, rfl⟩, longer⟩
    have rest : more ≠ [] := by
      rintro rfl
      exact longer (List.append_nil _)
    have apart : Cut (PROTOCOL_HEADER ++ more) [PROTOCOL_HEADER, more] :=
      ⟨by simp, by simp [rest, PROTOCOL_HEADER]⟩
    have together : Cut (PROTOCOL_HEADER ++ more) [PROTOCOL_HEADER ++ more] :=
      ⟨by simp, by simp [rest]⟩
    have parser := (same _ _ apart together).parserState
    have long : ¬ (s.buffers c ++ (PROTOCOL_HEADER ++ more)).length < PROTOCOL_HEADER.length := by
      simp only [List.length_append]
      omega
    have other : s.buffers c ++ (PROTOCOL_HEADER ++ more) ≠ PROTOCOL_HEADER := by
      simpa [fresh.buffer] using rest
    have first : Server.step env s (.dataReceived c PROTOCOL_HEADER) =
        { broker := after (greet c) s.broker, buffers := Function.update s.buffers c [] } := by
      rw [step_header live waiting, fresh.buffer, if_neg (by simp), if_neg (by simp)]
    have closed : ((after (close c) s.broker).trackers c).parserState = .waitingProtocolHeader :=
      (sameParser_onTransport c (update fun t => { t with closing := true }) s.broker).trans waiting
    rw [deliver_cons, deliver_cons, deliver_nil, first, deliver_cons, deliver_nil,
      step_header live waiting, if_neg long, if_pos other, closed] at parser
    refine step_staysStarted _ more ?_ parser
    simp [greet_started]
  · intro alone cut cut' h h'
    have short : (s.buffers c).length < PROTOCOL_HEADER.length := by
      rw [fresh.buffer]
      decide
    apply sameOutcome_of_eq
    rw [deliver_outcome alone live waiting short h.nonempty (by rw [fresh.buffer, h.whole]; rfl),
      deliver_outcome alone live waiting short h'.nonempty (by rw [fresh.buffer, h'.whole]; rfl)]

theorem segmentation_of_the_header :
    SameOutcome 0 ((session []).deliver guestEnv 0 [[0x41, 0x4D, 0x51], [0x50, 0, 0, 9], [1]])
      ((session []).deliver guestEnv 0 [PROTOCOL_HEADER]) :=
  (segmentation_iff guestEnv ⟨rfl, rfl⟩ PROTOCOL_HEADER).mpr (by simp) _ _
    ⟨rfl, by decide⟩ ⟨rfl, by decide⟩

/-- A heartbeat after the protocol header: cut off from it, it is answered; in one chunk with it,
the connection is closed. -/
theorem segmentation_changes_the_outcome :
    (session []).Fresh 0 ∧
      Cut (PROTOCOL_HEADER ++ [8, 0, 0, 0, 0, 0, 0, 0xCE])
        [PROTOCOL_HEADER, [8, 0, 0, 0, 0, 0, 0, 0xCE]] ∧
      Cut (PROTOCOL_HEADER ++ [8, 0, 0, 0, 0, 0, 0, 0xCE])
        [PROTOCOL_HEADER ++ [8, 0, 0, 0, 0, 0, 0, 0xCE]] ∧
      ¬ SameOutcome 0
        ((session []).deliver guestEnv 0 [PROTOCOL_HEADER, [8, 0, 0, 0, 0, 0, 0, 0xCE]])
        ((session []).deliver guestEnv 0 [PROTOCOL_HEADER ++ [8, 0, 0, 0, 0, 0, 0, 0xCE]]) := by
  refine ⟨⟨rfl, rfl⟩, ⟨rfl, by decide⟩, ⟨rfl, by decide⟩, fun same => ?_⟩
  have parser := same.parserState
  revert parser
  decide +kernel

end MockAmqp
