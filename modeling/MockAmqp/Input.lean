import MockAmqp.Handshake
import MockAmqp.Reader
import MockAmqp.Wire

/-!
# What has become of the bytes received

Every byte that a connection has received belongs to the protocol header, to a frame that has been
treated, or to the buffer.
-/

namespace MockAmqp
open Exec

/-! ## A frame that is read stands at the front -/

theorem beBytes_beNat (b : Bytes) : beBytes b.length (beNat b) = b := by
  induction b using List.reverseRecOn with
  | nil => rfl
  | append_singleton b x ih =>
      have digit := x.toNat_lt
      have high : (beNat b * 256 + x.toNat) / 256 = beNat b := by omega
      have low : UInt8.ofNat (beNat b * 256 + x.toNat) = x := by
        apply UInt8.toNat_inj.mp
        rw [UInt8.toNat_ofNat']
        omega
      rw [beNat_snoc, List.length_append, List.length_singleton, beBytes, high, low, ih]

theorem slice_length {data : Bytes} {start stop : Nat} (h : stop ≤ data.length) :
    (slice data start stop).length = stop - start := by
  rw [slice, List.length_take, List.length_drop]
  omega

theorem slice_then_slice (data : Bytes) {i j k : Nat} (hij : i ≤ j) (hjk : j ≤ k) :
    slice data i j ++ slice data j k = slice data i k := by
  have whole : k - i = (j - i) + (k - j) := by omega
  have start : j = i + (j - i) := by omega
  rw [slice, slice, slice, whole, List.take_add, List.drop_drop, ← start]

theorem slice_then_drop (data : Bytes) (k : Nat) : slice data 0 k ++ data.drop k = data :=
  List.take_append_drop k data

section
variable {data : Bytes} {frameType channelNumber payloadSize : Nat}

/-- The frame at the front of a buffer, when it is there as a whole and ends with its marker. -/
theorem rawFrame_of_head (head : frameHead data = some (frameType, channelNumber, payloadSize))
    (whole : payloadSize + 8 ≤ data.length)
    (marker : slice data (payloadSize + 7) (payloadSize + 8) = [0xCE]) :
    ∃ raw : RawFrame, raw.frameType.toNat = frameType ∧
      raw.channelNumber.toNat = channelNumber ∧ raw.payload = slice data 7 (payloadSize + 7) ∧
      raw.payload.length = payloadSize ∧ data = raw.bytes ++ data.drop (payloadSize + 8) := by
  have long := frameHead_length head
  unfold frameHead at head
  rw [if_pos long] at head
  obtain ⟨kind, number, size⟩ : beNat (slice data 0 1) = frameType ∧
      beNat (slice data 1 3) = channelNumber ∧ beNat (slice data 3 7) = payloadSize := by
    simpa using head
  have kindLength : (slice data 0 1).length = 1 := slice_length (by omega)
  have numberLength : (slice data 1 3).length = 2 := slice_length (by omega)
  have sizeLength : (slice data 3 7).length = 4 := slice_length (by omega)
  have payloadLength : (slice data 7 (payloadSize + 7)).length = payloadSize := by
    rw [slice_length (by omega)]
    omega
  obtain ⟨x, first⟩ := List.length_eq_one_iff.mp kindLength
  have numberFits : channelNumber < 2 ^ 16 := by
    have bound := beNat_lt (slice data 1 3)
    rw [numberLength, number] at bound
    exact bound
  have sizeFits : payloadSize < 2 ^ 32 := by
    have bound := beNat_lt (slice data 3 7)
    rw [sizeLength, size] at bound
    exact bound
  have numberKept : (UInt16.ofNat channelNumber).toNat = channelNumber := by
    rw [UInt16.toNat_ofNat']
    omega
  have numberBytes : beBytes 2 channelNumber = slice data 1 3 := by
    have back := beBytes_beNat (slice data 1 3)
    rwa [numberLength, number] at back
  have sizeBytes : beBytes 4 payloadSize = slice data 3 7 := by
    have back := beBytes_beNat (slice data 3 7)
    rwa [sizeLength, size] at back
  refine ⟨⟨x, UInt16.ofNat channelNumber, slice data 7 (payloadSize + 7),
    lt_of_eq_of_lt payloadLength sizeFits⟩, ?_, numberKept, rfl, payloadLength, ?_⟩
  · rw [first] at kind
    simpa [beNat] using kind
  · have front : slice data 0 1 ++ slice data 1 3 ++ slice data 3 7 ++
        slice data 7 (payloadSize + 7) ++ slice data (payloadSize + 7) (payloadSize + 8) =
          slice data 0 (payloadSize + 8) := by
      rw [slice_then_slice data (by omega) (by omega), slice_then_slice data (by omega) (by omega),
        slice_then_slice data (by omega) (by omega), slice_then_slice data (by omega) (by omega)]
    simp only [RawFrame.bytes, numberKept, payloadLength, numberBytes, sizeBytes]
    rw [← first, ← marker, front, slice_then_drop]

/-- A frame value that is read comes from the bytes of a frame at the front of the buffer. -/
theorem readFrame_front {f : FrameValue} (read : readFrame data = .ok (some f)) :
    ∃ (raw : RawFrame) (rest : Bytes), data = raw.bytes ++ rest ∧ f.size = raw.bytes.length ∧
      raw.Decodes f := by
  by_cases holds : ∃ n, HoldsFrame data n
  · obtain ⟨_, frameType, channelNumber, payloadSize, head, rfl, whole⟩ := holds
    rw [readFrame_holds head whole] at read
    split at read
    · next marker =>
        obtain ⟨raw, kind, number, payload, length, split⟩ := rawFrame_of_head head whole marker
        have decodes : raw.Decodes f := by
          rw [RawFrame.Decodes, kind, number, payload, ← payload, length, payload]
          exact read
        refine ⟨raw, _, split, ?_, decodes⟩
        rw [raw.length_bytes]
        exact size_of_decodePayload decodes
    · cases read
  · rw [readFrame_waits holds] at read
    cases read

end

/-! ## Every frame treated is recorded once -/

/-- The frames of `c` that have been treated. -/
def Broker.treatedOn (b : Broker) (c : ConnId) : List FrameValue :=
  b.trace.filterMap (Event.treated c)

section
variable {env : Env} {c : ConnId} {f : FrameValue} {b b' : Broker}

theorem ByConn.treatedOn {c' : ConnId} {E : Event → Prop} (moved : ByConn c' E b b')
    (silent : ∀ e, E e → Untreated c e) : b'.treatedOn c = b.treatedOn c := by
  obtain ⟨new, trace, own⟩ := moved.events
  have none : new.filterMap (Event.treated c) = [] :=
    List.filterMap_eq_nil_iff.mpr fun e mem => silent e (own e mem)
  rw [Broker.treatedOn, trace, List.filterMap_append, none, List.append_nil]
  rfl

theorem untreated_of_conn {e : Event} (h : e.conn ≠ some c) : Untreated c e := by
  cases e with
  | frame c' s f =>
      have hne : c' ≠ c := fun same => h (congrArg some same)
      exact if_neg hne
  | _ => rfl

/-- What follows the record of a frame on channel 0 records no frame. -/
theorem connection_untreated (hn : f.channelNumber = 0) :
    ByConn c (Untreated c) (b.recorded c f) (after (dispatch env c f) b) := by
  have hp := byConn_progress c (Untreated c)
  have replied : ∀ r, Within (ByConn c (Untreated c)) (reply c r) := fun r => byConn_reply rfl
  have refused : Within (ByConn c (Untreated c)) (do close c; return false : OnBroker Bool) :=
    within_bind hp (byConn_onTransport fun _ _ => rfl) (fun _ => within_pure hp _)
  have moved : ∀ s r, Within (ByConn c (Untreated c))
      (do setParserState c s; return r : OnBroker Bool) := fun s r =>
    within_bind hp (byConn_setParserState rfl) (fun _ => within_pure hp _)
  by_cases beat : ∃ size, f = .heartBeat size
  · obtain ⟨size, rfl⟩ := beat
    rw [after_congr (dispatch_heartBeat size)]
    exact within_bind hp (replied _) (fun _ => within_pure hp _) _
  · rw [after_congr (dispatch_of_connection hn (fun size no => beat ⟨size, no⟩) b)]
    change ByConn c (Untreated c) (b.recorded c f) (after _ (b.recorded c f))
    revert hn
    generalize b.recorded c f = b1
    intro hn
    refine within_ite (within_bind hp (replied _) fun _ => refused) ?_ b1
    split
    · have checked : Within (ByConn c (Untreated c)) (checkStartOk env c f) := by
        intro b2
        refine (checkStartOk_once hp hn b2).within hp ?_
        rintro s t ⟨op, _, rfl⟩
        exact byConn_call env (fun _ => rfl) s
      refine within_bind hp checked fun ok => within_ite refused ?_
      exact within_bind hp (replied _) fun _ => moved _ _
    · exact within_ite refused (moved _ _)
    · exact within_ite refused (within_bind hp (replied _) fun _ => moved _ _)
    · exact within_pure hp _

theorem dispatch_treatedOn (env : Env) (c : ConnId) (f : FrameValue) (b : Broker) :
    (after (dispatch env c f) b).treatedOn c = b.treatedOn c ++ [f] := by
  have recorded : ∀ {b1 : Broker} {s : ConnectionState}, b1.trace = b.trace ++ [.frame c s f] →
      b1.treatedOn c = b.treatedOn c ++ [f] := by
    intro b1 s trace
    have one : [Event.frame c s f].filterMap (Event.treated c) = [f] := by simp [Event.treated]
    rw [Broker.treatedOn, trace, List.filterMap_append, one]
    rfl
  by_cases hn : f.channelNumber = 0
  · rw [(connection_untreated hn).treatedOn fun _ h => h]
    exact recorded rfl
  · have steps : RespectsChannel c f (ByConn c (Untreated c)) :=
      byConn_respects (fun _ _ => rfl) (fun _ => rfl)
    have once : Once (ByConn c (Untreated c)) (Called env c f) (b.received c f)
        (after (treatFrameOn env c (b.channel c f.channelNumber) f) (b.received c f)) :=
      treatFrameOn_once steps hn _ _
    have moved := once.within (byConn_progress c (Untreated c)) (by
      rintro b1 b2 ⟨op, _, rfl⟩
      exact byConn_call env (fun _ => rfl) b1)
    rw [after_dispatch_channel hn, moved.treatedOn fun _ h => h]
    exact recorded b.received_trace

/-- What other connections and requests do is not recorded as treated here. -/
theorem turn_treatedOn_other {t : Turn} (h : ∀ f, t ≠ .frame c f) :
    (Turn.step env b t).treatedOn c = b.treatedOn c := by
  cases t with
  | lost c' => rfl
  | start c' =>
      refine (Turn.start_byConn env b c').treatedOn ?_
      rintro e (rfl | rfl)
      · rfl
      · rfl
  | http op =>
      rw [Broker.treatedOn, (http_pushesJust env b op).trace, List.filterMap_append]
      cases (Turn.http op).pushing env b <;> exact List.append_nil _
  | frame c' f =>
      have hne : c' ≠ c := by
        rintro rfl
        exact h f rfl
      refine (dispatch_byConn env c' f b).treatedOn fun e own => untreated_of_conn ?_
      rw [own.conn]
      exact fun same => hne (Option.some.inj same)

/-- The frame of `c` that a turn treats. -/
def Turn.frameOf (c : ConnId) : Turn → Option FrameValue
  | .frame c' f => if c' = c then some f else none
  | _ => none

/-- A run records the frames of its turns, in order. -/
theorem run_treatedOn (env : Env) (c : ConnId) (b : Broker) (turns : List Turn) :
    (Runs.run (Turn.step env) b turns).treatedOn c =
      b.treatedOn c ++ turns.filterMap (Turn.frameOf c) := by
  induction turns generalizing b with
  | nil => simp
  | cons t rest ih =>
      rw [Runs.run_cons, ih]
      by_cases own : ∃ f, t = .frame c f
      · obtain ⟨f, rfl⟩ := own
        have step : (Turn.step env b (.frame c f)).treatedOn c = b.treatedOn c ++ [f] :=
          dispatch_treatedOn env c f b
        have first : Turn.frameOf c (.frame c f) = some f := if_pos rfl
        rw [step, List.append_assoc, List.filterMap_cons_some first]
        rfl
      · have none : Turn.frameOf c t = none := by
          cases t with
          | frame c' f =>
              have hne : c' ≠ c := by
                rintro rfl
                exact own ⟨f, rfl⟩
              exact if_neg hne
          | _ => rfl
        rw [turn_treatedOn_other fun f no => own ⟨f, no⟩, List.filterMap_cons_none none]

end

/-! ## What does not touch a connection -/

/-- The connection of which bytes are treated. -/
def Turn.conn : Turn → Option ConnId
  | frame c _ => some c
  | start c => some c
  | lost _ => none
  | http _ => none

/-- Nothing is recorded for the connection, and of its record only the transport changes, which may
be written to or closed. -/
structure Untouched (c : ConnId) (b b' : Broker) : Prop where
  events : ∃ new, b'.trace = b.trace ++ new ∧ ∀ e ∈ new, e.conn ≠ some c
  parser : SameParser c b b'
  channels : SameChannels c b b'
  closing : b.isClosing c = true → b'.isClosing c = true

section
variable {env : Env} {c : ConnId} {b b' : Broker} {t : Turn}

theorem untouched_progress (c : ConnId) : Progress (Untouched c) where
  refl := fun _ => ⟨⟨[], by simp, by simp⟩, rfl, rfl, id⟩
  trans := by
    rintro b b' b'' ⟨⟨new, trace, other⟩, parser, channels, closing⟩
      ⟨⟨new', trace', other'⟩, parser', channels', closing'⟩
    refine ⟨⟨new ++ new', by rw [trace', trace, List.append_assoc], fun e mem => ?_⟩,
      parser'.trans parser, channels'.trans channels, fun h => closing' (closing h)⟩
    rcases List.mem_append.mp mem with old | recent
    · exact other e old
    · exact other' e recent

theorem Untouched.treatedOn (h : Untouched c b b') : b'.treatedOn c = b.treatedOn c := by
  obtain ⟨new, trace, other⟩ := h.events
  have none : new.filterMap (Event.treated c) = [] :=
    List.filterMap_eq_nil_iff.mpr fun e mem => untreated_of_conn (other e mem)
  rw [Broker.treatedOn, trace, List.filterMap_append, none, List.append_nil]
  rfl

theorem Untouched.live (h : Untouched c b b') (live : b'.isClosing c = false) :
    b.isClosing c = false := by
  by_contra closing
  rw [h.closing (by simpa using closing)] at live
  cases live

theorem ByConn.untouched {c' : ConnId} (hne : c ≠ c') {E : Event → Prop}
    (moved : ByConn c' E b b') (conn : ∀ e, E e → e.conn = some c') : Untouched c b b' := by
  have same := moved.others c hne
  obtain ⟨new, trace, own⟩ := moved.events
  refine ⟨⟨new, trace, fun e mem => ?_⟩, congrArg Tracker.parserState same,
    congrArg Tracker.channels same, fun h => ?_⟩
  · rw [conn e (own e mem)]
    exact fun no => hne (Option.some.inj no).symm
  · rw [Broker.isClosing, same]
    exact h

theorem turn_untouched (h : t.conn ≠ some c) : Untouched c b (Turn.step env b t) := by
  cases t with
  | frame c' f =>
      have hne : c ≠ c' := fun same => h (congrArg some same.symm)
      exact (dispatch_byConn env c' f b).untouched hne fun _ own => own.conn
  | start c' =>
      have hne : c ≠ c' := fun same => h (congrArg some same.symm)
      refine (Turn.start_byConn env b c').untouched hne ?_
      rintro e (rfl | rfl)
      · rfl
      · rfl
  | lost c' =>
      show Untouched c b (after (close c') b)
      by_cases same : c = c'
      · subst same
        exact ⟨⟨[], (List.append_nil _).symm, by simp⟩, sameParser_onTransport c _ b,
          sameChannels_onTransport c _ b, fun _ => isClosing_close b⟩
      · have moved : ByConn c' (fun _ => False) b (after (close c') b) :=
          byConn_onTransport (fun _ _ => rfl) b
        exact moved.untouched same fun _ no => no.elim
  | http op =>
      have kept : SameConnections b (Turn.step env b (.http op)) :=
        (http_after env op b).connections
      refine ⟨⟨_, (http_pushesJust env b op).trace, fun e mem => ?_⟩, (kept c).1, (kept c).2.1,
        fun h => (kept c).2.2.trans h⟩
      obtain ⟨p, _, rfl⟩ := List.mem_map.mp mem
      simp [Event.conn]

theorem run_untouched {turns : List Turn} (h : ∀ t ∈ turns, t.conn ≠ some c) (b : Broker) :
    Untouched c b (Runs.run (Turn.step env) b turns) := by
  induction turns generalizing b with
  | nil => exact (untouched_progress c).refl b
  | cons t rest ih =>
      exact (untouched_progress c).trans (turn_untouched (h t List.mem_cons_self))
        (ih (fun t mem => h t (List.mem_cons_of_mem _ mem)) _)

/-- Bytes are treated by the connection that they arrive on. -/
theorem turns_conn {s : Server} {c' : ConnId} {data : Bytes}
    (mem : t ∈ Server.turns env s (.dataReceived c' data)) : t.conn = some c' ∨ t.conn = none := by
  simp only [Server.turns] at mem
  split at mem
  · cases mem
  · split at mem
    · split at mem
      · cases mem
      · split at mem
        · cases List.mem_singleton.mp mem
          exact .inr rfl
        · cases List.mem_singleton.mp mem
          exact .inl rfl
    · obtain ⟨f, _, rfl⟩ := List.mem_map.mp mem
      exact .inl rfl

end

/-! ## Every byte is accounted for -/

/-- The bytes that have arrived on a connection are the protocol header, the frames that it has
treated, each once and in order, and its buffer. Before the header is complete they are all in the
buffer, unless the connection was refused. -/
structure StreamAccount (c : ConnId) (arrived : Bytes) (s : Server) : Prop where
  waiting : (s.broker.trackers c).parserState = .waitingProtocolHeader →
    s.broker.treatedOn c = [] ∧ (s.broker.isClosing c = false → s.buffers c = arrived)
  started : (s.broker.trackers c).parserState ≠ .waitingProtocolHeader →
    ∃ frames : List (RawFrame × FrameValue), (∀ p ∈ frames, p.1.Decodes p.2) ∧
      s.broker.treatedOn c = frames.map Prod.snd ∧
      arrived = PROTOCOL_HEADER ++ (frames.map fun p => p.1.bytes).flatten ++ s.buffers c

section
variable {env : Env} {c : ConnId} {s : Server} {arrived : Bytes}

/-- What stands at the front of a buffer for each frame that is read. -/
theorem frameReader_fronts : Framing.Fronts frameReader fun bytes f =>
    ∃ raw : RawFrame, bytes = raw.bytes ∧ raw.Decodes f := by
  intro buf f read
  obtain ⟨raw, rest, split, size, decodes⟩ := readFrame_front read
  exact ⟨raw.bytes, rest, split, size, raw, rfl, decodes⟩

/-- The frames taken off a buffer, with their bytes. -/
theorem taken_frames (handle : FrameValue → OnBroker Bool) (n : Nat) (buf : Bytes) (b : Broker) :
    ∃ frames : List (RawFrame × FrameValue), (∀ p ∈ frames, p.1.Decodes p.2) ∧
      frames.map Prod.snd = Framing.taken frameReader handle n (buf, b) ∧
      buf = (frames.map fun p => p.1.bytes).flatten ++
        (after (Framing.drain frameReader handle n) (buf, b)).1 := by
  obtain ⟨items, all, took, split⟩ :=
    Framing.drain_consumes handle frameReader_fronts n buf b
  have named : ∀ items : List (Bytes × FrameValue),
      (∀ i ∈ items, ∃ raw : RawFrame, i.1 = raw.bytes ∧ raw.Decodes i.2) →
      ∃ frames : List (RawFrame × FrameValue), (∀ p ∈ frames, p.1.Decodes p.2) ∧
        frames.map Prod.snd = items.map Prod.snd ∧
        (frames.map fun p => p.1.bytes) = items.map Prod.fst := by
    intro items
    induction items with
    | nil => exact fun _ => ⟨[], by simp, rfl, rfl⟩
    | cons i rest ih =>
        intro all
        obtain ⟨raw, bytes, decodes⟩ := all i List.mem_cons_self
        obtain ⟨frames, decode, values, same⟩ := ih fun j mem => all j (List.mem_cons_of_mem i mem)
        refine ⟨(raw, i.2) :: frames, List.forall_mem_cons.mpr ⟨decodes, decode⟩, ?_, ?_⟩
        · rw [List.map_cons, List.map_cons, values]
        · rw [List.map_cons, List.map_cons, same, bytes]
  obtain ⟨frames, decode, values, same⟩ := named items all
  exact ⟨frames, decode, values.trans took, by rw [same]; exact split⟩

theorem step_treatedOn (s : Server) (a : Action) : (Server.step env s a).broker.treatedOn c =
    s.broker.treatedOn c ++ (Server.turns env s a).filterMap (Turn.frameOf c) := by
  rw [Server.step_refines, run_treatedOn]

theorem arrives_other {a : Action} (h : ∀ data, a ≠ .dataReceived c data) :
    Server.arrives c s a = [] := by
  cases a with
  | dataReceived c' data =>
      have hne : c' ≠ c := by
        rintro rfl
        exact h data rfl
      simp [Server.arrives, hne]
  | _ => rfl

theorem arrives_closing (closing : s.broker.isClosing c = true) (data : Bytes) :
    Server.arrives c s (.dataReceived c data) = [] := by simp [Server.arrives, closing]

theorem arrives_live (live : s.broker.isClosing c = false) (data : Bytes) :
    Server.arrives c s (.dataReceived c data) = data := by simp [Server.arrives, live]

/-- An action that brings no bytes to `c` leaves its buffer and does not touch it. -/
theorem step_untouched (env : Env) (s : Server) {a : Action} (h : ∀ data, a ≠ .dataReceived c data) :
    (Server.step env s a).buffers c = s.buffers c ∧
      Untouched c s.broker (Server.step env s a).broker := by
  constructor
  · cases a with
    | dataReceived c' data =>
        have hne : c ≠ c' := by
          rintro rfl
          exact h data rfl
        simp only [Server.step]
        split
        · rfl
        · exact Function.update_of_ne hne _ _
    | _ => rfl
  · rw [Server.step_refines]
    refine run_untouched (fun t mem => ?_) s.broker
    cases a with
    | dataReceived c' data =>
        have hne : c' ≠ c := by
          rintro rfl
          exact h data rfl
        rcases turns_conn mem with own | none
        · rw [own]
          exact fun same => hne (Option.some.inj same)
        · simp [none]
    | connectionLost c' =>
        cases List.mem_singleton.mp mem
        simp [Turn.conn]
    | http op =>
        cases List.mem_singleton.mp mem
        simp [Turn.conn]

theorem StreamAccount.idle (h : StreamAccount c arrived s) {s' : Server}
    (buffer : s'.buffers c = s.buffers c) (untouched : Untouched c s.broker s'.broker) :
    StreamAccount c arrived s' where
  waiting := by
    intro state
    rw [untouched.parser] at state
    rw [untouched.treatedOn, buffer]
    exact ⟨(h.waiting state).1, fun live => (h.waiting state).2 (untouched.live live)⟩
  started := by
    intro state
    rw [untouched.parser] at state
    rw [untouched.treatedOn, buffer]
    exact h.started state

/-- Bytes that arrive before the protocol header is complete. -/
theorem StreamAccount.header (h : StreamAccount c arrived s)
    (live : s.broker.isClosing c = false)
    (state : (s.broker.trackers c).parserState = .waitingProtocolHeader) (data : Bytes) :
    StreamAccount c (arrived ++ data) (Server.step env s (.dataReceived c data)) := by
  obtain ⟨none, buffered⟩ := h.waiting state
  rw [step_header live state, buffered live]
  by_cases short : (arrived ++ data).length < PROTOCOL_HEADER.length
  · rw [if_pos short]
    exact ⟨fun _ => ⟨none, fun _ => Function.update_self _ _ _⟩, fun no => absurd state no⟩
  · rw [if_neg short]
    by_cases other : arrived ++ data ≠ PROTOCOL_HEADER
    · rw [if_pos other]
      have closed : (after (close c) s.broker).isClosing c = true := isClosing_close s.broker
      have parser : SameParser c s.broker (after (close c) s.broker) :=
        sameParser_onTransport c _ s.broker
      refine ⟨fun _ => ⟨none, fun no => absurd (closed.symm.trans no) (by simp)⟩, fun no => ?_⟩
      exact absurd (parser.trans state) no
    · rw [if_neg other]
      have started : ((after (greet c) s.broker).trackers c).parserState = .waitingStartOk :=
        greet_started s.broker
      have silent : (after (greet c) s.broker).treatedOn c = [] := by
        have step : after (greet c) s.broker = Turn.step env s.broker (.start c) :=
          (Turn.step_start state).symm
        rw [step, turn_treatedOn_other (t := .start c) (fun _ no => by cases no), none]
      generalize after (greet c) s.broker = b at started silent ⊢
      have emptied : Function.update s.buffers c [] c = [] := Function.update_self _ _ _
      refine ⟨fun no => absurd (started.symm.trans no) (by simp), fun _ => ⟨[], by simp, silent, ?_⟩⟩
      dsimp only
      rw [emptied, List.map_nil, List.flatten_nil, List.append_nil, List.append_nil]
      exact not_not.mp other

/-- Bytes that arrive later. -/
theorem StreamAccount.frames (h : StreamAccount c arrived s)
    (live : s.broker.isClosing c = false)
    (state : (s.broker.trackers c).parserState ≠ .waitingProtocolHeader) (data : Bytes) :
    StreamAccount c (arrived ++ data) (Server.step env s (.dataReceived c data)) := by
  obtain ⟨frames, decode, treated, split⟩ := h.started state
  have open_ : ¬ s.broker.isClosing c = true := by simp [live]
  have loop : Framing.feed frameReader (dispatch env c) data (s.buffers c, s.broker) =
      Framing.drain frameReader (dispatch env c) (s.buffers c ++ data).length
        (s.buffers c ++ data, s.broker) := rfl
  have buffer : (Server.step env s (.dataReceived c data)).buffers c =
      (after (Framing.drain frameReader (dispatch env c) (s.buffers c ++ data).length)
        (s.buffers c ++ data, s.broker)).1 := by
    simp only [Server.step, if_neg open_, Function.update_self]
    rw [after_congr (dataReceived_frames state), after_congr loop]
  have took : (Server.turns env s (.dataReceived c data)).filterMap (Turn.frameOf c) =
      Framing.taken frameReader (dispatch env c) (s.buffers c ++ data).length
        (s.buffers c ++ data, s.broker) := by
    simp only [Server.turns, if_neg open_, if_neg state, List.filterMap_map]
    have own : Turn.frameOf c ∘ Turn.frame c = some := by
      funext f
      exact if_pos rfl
    rw [own, List.filterMap_some]
  obtain ⟨more, decode', values, rest⟩ := taken_frames (dispatch env c)
    (s.buffers c ++ data).length (s.buffers c ++ data) s.broker
  have later : ((Server.step env s (.dataReceived c data)).broker.trackers c).parserState ≠
      .waitingProtocolHeader := by
    intro back
    have le := run_value_le env s.broker (Server.turns env s (.dataReceived c data)) c
    rw [← Server.step_refines, back] at le
    revert le state
    cases (s.broker.trackers c).parserState <;> decide
  refine ⟨fun no => absurd no later, fun _ => ⟨frames ++ more, ?_, ?_, ?_⟩⟩
  · intro p mem
    rcases List.mem_append.mp mem with old | new
    · exact decode p old
    · exact decode' p new
  · rw [step_treatedOn, took, treated, ← values, List.map_append]
  · rw [← buffer] at rest
    calc
      arrived ++ data = PROTOCOL_HEADER ++ (frames.map fun p => p.1.bytes).flatten ++
          (s.buffers c ++ data) := by rw [split, List.append_assoc]
      _ = PROTOCOL_HEADER ++ (frames.map fun p => p.1.bytes).flatten ++
          ((more.map fun p => p.1.bytes).flatten ++
            (Server.step env s (.dataReceived c data)).buffers c) := congrArg _ rest
      _ = _ := by rw [List.map_append, List.flatten_append]; simp only [List.append_assoc]

/-- Over every run, whatever else happens in between, each connection accounts for every byte that
it has received. -/
theorem stream_accounted (env : Env) (draws : Nat → Draw) (actions : List Action) (c : ConnId) :
    StreamAccount c (Server.received env c (Server.init env draws) actions)
      (Runs.run (Server.step env) (Server.init env draws) actions) := by
  induction actions using List.reverseRecOn with
  | nil => exact ⟨fun _ => ⟨rfl, fun _ => rfl⟩, fun no => absurd rfl no⟩
  | append_singleton actions a ih =>
      rw [Runs.run_append, Server.received_snoc]
      generalize Runs.run (Server.step env) (Server.init env draws) actions = s at ih ⊢
      generalize Server.received env c (Server.init env draws) actions = arrived at ih ⊢
      show StreamAccount c (arrived ++ (Server.arrives c s a ++ [])) (Server.step env s a)
      rw [List.append_nil]
      by_cases own : ∃ data, a = .dataReceived c data
      · obtain ⟨data, rfl⟩ := own
        by_cases closing : s.broker.isClosing c = true
        · have stuck : Server.step env s (.dataReceived c data) = s := if_pos closing
          rw [stuck, arrives_closing closing, List.append_nil]
          exact ih
        · have live : s.broker.isClosing c = false := by simpa using closing
          rw [arrives_live live]
          by_cases state : (s.broker.trackers c).parserState = .waitingProtocolHeader
          · exact ih.header live state data
          · exact ih.frames live state data
      · have notData : ∀ data, a ≠ .dataReceived c data := fun data same => own ⟨data, same⟩
        obtain ⟨buffer, untouched⟩ := step_untouched env s notData
        rw [arrives_other notData, List.append_nil]
        exact ih.idle buffer untouched

end

/-! ## A frame that is never treated -/

/-- The buffer begins with a whole frame that is not read: its marker is wrong, its type is unknown
or its payload cannot be decoded. -/
structure Blocked (c : ConnId) (s : Server) : Prop where
  started : (s.broker.trackers c).parserState ≠ .waitingProtocolHeader
  whole : ∃ n, HoldsFrame (s.buffers c) n
  unread : ∀ f, readFrame (s.buffers c) ≠ .ok (some f)

section
variable {env : Env} {c : ConnId} {s : Server}

/-- A whole frame at the front of a buffer is read, or not, whatever follows. -/
theorem readFrame_append {data : Bytes} (whole : ∃ n, HoldsFrame data n) (more : Bytes) :
    readFrame (data ++ more) = readFrame data := by
  obtain ⟨_, _, _, payloadSize, head, rfl, fits⟩ := whole
  have longer : payloadSize + 8 ≤ (data ++ more).length := by
    rw [List.length_append]
    omega
  have head' := (frameHead_append (frameHead_length head) more).trans head
  rw [readFrame_holds head fits, readFrame_holds head' longer, slice_append fits,
    slice_append (by omega)]

theorem holdsFrame_append {data : Bytes} (whole : ∃ n, HoldsFrame data n) (more : Bytes) :
    ∃ n, HoldsFrame (data ++ more) n := by
  obtain ⟨n, frameType, channelNumber, payloadSize, head, size, fits⟩ := whole
  refine ⟨n, frameType, channelNumber, payloadSize,
    (frameHead_append (frameHead_length head) more).trans head, size, ?_⟩
  rw [List.length_append]
  omega

theorem Blocked.arrive (h : Blocked c s) (live : s.broker.isClosing c = false) (data : Bytes) :
    Server.step env s (.dataReceived c data) =
      { s with buffers := Function.update s.buffers c (s.buffers c ++ data) } := by
  have open_ : ¬ s.broker.isClosing c = true := by simp [live]
  have stuck : after (Framing.feed frameReader (dispatch env c) data) (s.buffers c, s.broker) =
      (s.buffers c ++ data, s.broker) := by
    have same := readFrame_append h.whole data
    have unread := h.unread
    rw [← same] at unread
    unfold Framing.feed after
    dsimp only
    generalize s.buffers c ++ data = buf at unread
    cases buf with
    | nil => rfl
    | cons x rest =>
        rw [List.length_cons]
        simp only [Framing.drain, reduceCtorEq, if_false, frameReader_read]
        cases read : readFrame (x :: rest) with
        | error e => rfl
        | ok o =>
            cases o with
            | none => rfl
            | some f => exact absurd read (unread f)
  simp only [Server.step, if_neg open_]
  rw [after_congr (dataReceived_frames h.started), stuck]

/-- Once a connection is blocked, it stays blocked: whatever it receives goes to its buffer, and it
treats nothing and answers nothing any more. -/
theorem blocked_for_good (h : Blocked c s) (actions : List Action) :
    let s' := Runs.run (Server.step env) s actions
    Untouched c s.broker s'.broker ∧ Blocked c s' ∧
      s'.buffers c = s.buffers c ++ Server.received env c s actions := by
  induction actions generalizing s with
  | nil => exact ⟨(untouched_progress c).refl _, h, (List.append_nil _).symm⟩
  | cons a rest ih =>
      have one : Untouched c s.broker (Server.step env s a).broker ∧
          Blocked c (Server.step env s a) ∧
          (Server.step env s a).buffers c = s.buffers c ++ Server.arrives c s a := by
        by_cases own : ∃ data, a = .dataReceived c data
        · obtain ⟨data, rfl⟩ := own
          by_cases closing : s.broker.isClosing c = true
          · have stuck : Server.step env s (.dataReceived c data) = s := if_pos closing
            rw [stuck, arrives_closing closing, List.append_nil]
            exact ⟨(untouched_progress c).refl _, h, rfl⟩
          · have live : s.broker.isClosing c = false := by simpa using closing
            have buffer : Function.update s.buffers c (s.buffers c ++ data) c =
                s.buffers c ++ data := Function.update_self _ _ _
            rw [h.arrive live, arrives_live live]
            refine ⟨(untouched_progress c).refl _, ⟨h.started, ?_, ?_⟩, buffer⟩
            · dsimp only
              rw [buffer]
              exact holdsFrame_append h.whole data
            · dsimp only
              rw [buffer, readFrame_append h.whole]
              exact h.unread
        · have notData : ∀ data, a ≠ .dataReceived c data := fun data same => own ⟨data, same⟩
          obtain ⟨buffer, untouched⟩ := step_untouched env s notData
          refine ⟨untouched, ⟨?_, ?_, ?_⟩, ?_⟩
          · rw [untouched.parser]
            exact h.started
          · rw [buffer]
            exact h.whole
          · rw [buffer]
            exact h.unread
          · rw [buffer, arrives_other notData, List.append_nil]
      obtain ⟨untouched, blocked, buffer⟩ := one
      obtain ⟨later, still, grown⟩ := ih blocked
      refine ⟨(untouched_progress c).trans untouched later, still, ?_⟩
      rw [Runs.run_cons, grown, buffer, List.append_assoc]
      rfl

end

/-- A login, and a whole frame of type 4 behind it. -/
def unknownFrame : List Action :=
  logIn 0 ++ [.dataReceived 0 [4, 0, 1, 0, 0, 0, 0, 0xCE]]

theorem heartbeat_behind_unknown_frame :
    Untouched 0 (session unknownFrame).broker (Runs.run (Server.step guestEnv)
      (session unknownFrame) [.dataReceived 0 [8, 0, 0, 0, 0, 0, 0, 0xCE]]).broker := by
  have facts : ((session unknownFrame).broker.trackers 0).parserState ≠ .waitingProtocolHeader ∧
      (session unknownFrame).buffers 0 = [4, 0, 1, 0, 0, 0, 0, 0xCE] := by decide +kernel
  have head : frameHead [4, 0, 1, 0, 0, 0, 0, 0xCE] = some (4, 1, 0) := by decide
  have marker : slice [4, 0, 1, 0, 0, 0, 0, 0xCE] 7 8 = [0xCE] := by decide
  have none := (readFrame_none_iff head (by decide)).mpr ⟨marker, by decide⟩
  have blocked : Blocked 0 (session unknownFrame) := by
    refine ⟨facts.1, ?_, ?_⟩
    · rw [facts.2]
      exact ⟨8, 4, 1, 0, head, rfl, by decide⟩
    · rw [facts.2, none]
      simp
  exact (blocked_for_good blocked [.dataReceived 0 [8, 0, 0, 0, 0, 0, 0, 0xCE]]).1

end MockAmqp
