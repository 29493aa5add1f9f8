import MockAmqp.Acceptance
import MockAmqp.Arguments
import MockAmqp.Consumers
import MockAmqp.Handshake
import MockAmqp.Operations
import MockAmqp.Reassembly
import MockAmqp.Wire

/-!
# Short strings

Names and tags come in frames as short strings, so that they fit those of the replies and the
deliveries that repeat them.
-/

namespace MockAmqp
open Exec

/-- The text fits a short string. -/
def Short (s : Str) : Prop := (encodePass s).length ≤ 255

theorem short_nil : Short [] := Nat.zero_le 255

/-! ## Reading -/

section
variable {buf : Bytes}

theorem loadOne_short {st st' : LoadState} {v : Val} (read : loadOne buf st 's' = .ok (v, st')) :
    ∃ s, v = .str s ∧ Short s := by
  obtain ⟨n, s, rfl, length, text, _⟩ := loadOne_text (.inl ⟨rfl, rfl⟩) read
  have few : n ≤ 255 := by
    unfold unpackFrom at length
    split at length
    · rename_i inside
      cases length
      have one : (slice buf st.offset (st.offset + 1)).length = 1 := by
        rw [slice, List.length_take, List.length_drop]
        omega
      have digits := beNat_lt (slice buf st.offset (st.offset + 1))
      rw [one] at digits
      omega
    · cases length
  refine ⟨s, rfl, ?_⟩
  rw [Short, encodePass_of_decoded text, slice, List.length_take]
  omega

/-- A short string of the format is read as a text that fits one. -/
theorem loadAll_short {format : List Char} {st : LoadState} {values : List Val} {stop : Nat}
    (loaded : loadAll buf format st = .ok (values, stop)) {i : Nat} (letter : format[i]? = some 's') :
    ∃ s, values[i]? = some (.str s) ∧ Short s := by
  induction format generalizing st values i with
  | nil => cases letter
  | cons p format ih =>
      obtain ⟨v, st', rest, one, others, rfl⟩ := loadAll_cons loaded
      cases i with
      | zero =>
          cases letter
          obtain ⟨s, rfl, short⟩ := loadOne_short one
          exact ⟨s, rfl, short⟩
      | succ i => exact ih others letter

end

/-- Each name stands for the value under its index. -/
theorem mapM_entries {values : List Val} {names : List (ArgName × Nat)}
    {entries : List (ArgName × Val)}
    (mapped : (names.mapM fun p => match values[p.2]? with
      | some v => Except.ok (p.1, v)
      | none => Except.error PyError.indexError) = .ok entries) :
    entries.map Prod.fst = names.map Prod.fst ∧
      ∀ name i v, (name, i) ∈ names → values[i]? = some v → (name, v) ∈ entries := by
  induction names generalizing entries with
  | nil =>
      cases mapped
      exact ⟨rfl, fun _ _ _ no => absurd no List.not_mem_nil⟩
  | cons p names ih =>
      rw [List.mapM_cons] at mapped
      obtain ⟨first, here, mapped⟩ := except_bind_eq_ok.mp mapped
      obtain ⟨others, later, mapped⟩ := except_bind_eq_ok.mp mapped
      cases mapped
      obtain ⟨keys, found⟩ := ih later
      split at here
      · rename_i w read
        cases here
        refine ⟨congrArg (p.1 :: ·) keys, fun name i v mem value => ?_⟩
        rcases List.mem_cons.mp mem with same | mem
        · cases same
          rw [read] at value
          cases value
          exact List.mem_cons_self
        · exact List.mem_cons_of_mem _ (found name i v mem value)
      · cases here

theorem decodeArgs_short {format : List Char} {names : List (ArgName × Nat)} {payload : Bytes}
    {args : Args} (decoded : decodeArgs (String.ofList format) names payload = .ok args)
    (distinct : (names.map Prod.fst).Nodup) {name : ArgName} {i : Nat} (field : (name, i) ∈ names)
    (letter : format[i]? = some 's') : ∃ s, args.get? name = some (.str s) ∧ Short s := by
  unfold decodeArgs at decoded
  rw [String.toList_ofList] at decoded
  obtain ⟨⟨values, stop⟩, loaded, decoded⟩ := except_bind_eq_ok.mp decoded
  obtain ⟨entries, mapped, decoded⟩ := except_bind_eq_ok.mp decoded
  cases decoded
  obtain ⟨s, value, short⟩ := loadAll_short loaded letter
  obtain ⟨keys, found⟩ := mapM_entries mapped
  refine ⟨s, ?_, short⟩
  rw [OrderedDict.get?_eq_some_iff, OrderedDict.entries_ofList (keys ▸ distinct)]
  exact found name i _ field value

/-- The fields that a method has in a short string. -/
def MethodId.shortFields (m : MethodId) : List ArgName :=
  (m.fields.filter fun p => m.format[p.2]? = some 's').map Prod.fst

section
variable {data : Bytes} {f : FrameValue} {m : MethodId} {name : ArgName}

theorem read_short (decoded : readFrame data = .ok (some f)) (method : f.methodId = some m)
    (field : name ∈ m.shortFields) : ∃ s, f.argStr name = .ok s ∧ Short s := by
  cases f with
  | method frame =>
      cases method
      obtain ⟨payload, decoder⟩ := readFrame_method decoded
      obtain ⟨⟨_, i⟩, kept, rfl⟩ := List.mem_map.mp field
      obtain ⟨member, letter⟩ := List.mem_filter.mp kept
      have other : frame.methodId ≠ .connectionClose := by
        intro close
        rw [close] at member
        cases member
      rw [MethodId.decoder_eq other] at decoder
      have distinct : (frame.methodId.fields.map Prod.fst).Nodup := by
        cases frame.methodId <;> decide
      obtain ⟨s, found, short⟩ := decodeArgs_short decoder distinct member (by simpa using letter)
      exact ⟨s, argStr_method found, short⟩
  | _ => cases method

/-- What is in a field of a frame that has been read is short if the field is. -/
theorem argStr_short (decoded : readFrame data = .ok (some f)) (method : f.methodId = some m)
    (field : name ∈ m.shortFields) {s : Str} (argued : f.argStr name = .ok s) : Short s := by
  obtain ⟨s', argued', short⟩ := read_short decoded method field
  rw [argued] at argued'
  cases argued'
  exact short

end

/-! ## Writing -/

/-- The sender writes one frame, with this channel number. -/
def SendsOn (n : Nat) (x : Send Unit) : Prop :=
  ∃ raw : RawFrame, raw.channelNumber.toNat = n ∧ ∀ t, x t = .ok () (t.put raw.bytes)

section
variable {n classId methodId : Nat}

theorem smallFrame_number {kind : UInt8} {payload : Bytes} {fits : payload.length < 2 ^ 32}
    (small : n < 256) : (smallFrame kind n payload fits).channelNumber.toNat = n := by
  rw [smallFrame, UInt16.toNat_ofNat']
  omega

theorem sendMethod_sendsOn (small : n < 256) {arguments : Bytes} (fits : arguments.length < 2 ^ 31) :
    SendsOn n (sendMethod n classId methodId arguments) := by
  have whole : ([0, UInt8.ofNat classId, 0, UInt8.ofNat methodId] ++ arguments).length < 2 ^ 32 := by
    rw [List.length_append, List.length_cons, List.length_cons, List.length_cons,
      List.length_singleton]
    omega
  exact ⟨_, smallFrame_number small, sendMethod_small small whole⟩

/-- The formats of the replies and the deliveries: no letter of long values, few letters, and
no run of bits. -/
def ShortFormat (format : String) : Prop :=
  (∀ p ∈ format.toList, p ∈ shortFormats) ∧ format.length < 2 ^ 20 ∧ BitsFit 0 format.toList

variable {format : String} {values : List Val}

/-- Arguments in range go out in one frame. -/
theorem sendMethodArgs_sendsOn (small : n < 256) (short : ShortFormat format)
    (inRange : List.Forall₂ InRange format.toList values) :
    SendsOn n (sendMethodArgs n classId methodId format values) := by
  obtain ⟨letters, few, bits⟩ := short
  obtain ⟨arguments, encoded, _⟩ := dumps_loads inRange bits
  have bound := dumps_size letters encoded
  rw [String.length_toList] at bound
  unfold sendMethodArgs
  rw [encoded, attempt_bind_ok]
  exact sendMethod_sendsOn small (by omega)

theorem sendMethodArgs_refused (large : 256 ≤ n) (bits : BitsFit 0 format.toList)
    (inRange : List.Forall₂ InRange format.toList values) (t : Transport) :
    sendMethodArgs n classId methodId format values t = .error .valueError t := by
  obtain ⟨arguments, encoded, _⟩ := dumps_loads inRange bits
  unfold sendMethodArgs sendMethod
  rw [encoded, attempt_bind_ok, frameStart_large large]
  rfl

variable {p : Push}

theorem deliver_inRange (tag : Short p.consumerTag) (name : Short p.exchangeName)
    (drawn : p.deliveryTag < 2 ^ 64) : List.Forall₂ InRange "sLbss".toList
      [.str p.consumerTag, .int p.deliveryTag, .bool false, .str p.exchangeName, .str []] :=
  .cons (.shortstr tag) (.cons (.longlong drawn) (.cons (.bit false) (.cons (.shortstr name)
    (.cons (.shortstr short_nil) .nil))))

theorem deliver_format : ShortFormat "sLbss" :=
  ⟨allShort rfl, by decide, by simp [BitsFit]⟩

theorem Push.deliver_sendsOn (small : p.channelNumber < 256) (tag : Short p.consumerTag)
    (name : Short p.exchangeName) (drawn : p.deliveryTag < 2 ^ 64) :
    SendsOn p.channelNumber p.deliver :=
  sendMethodArgs_sendsOn small deliver_format (deliver_inRange tag name drawn)

theorem Push.deliver_refused (large : 256 ≤ p.channelNumber) (tag : Short p.consumerTag)
    (name : Short p.exchangeName) (drawn : p.deliveryTag < 2 ^ 64) (t : Transport) :
    p.deliver t = .error .valueError t :=
  sendMethodArgs_refused large deliver_format.2.2 (deliver_inRange tag name drawn) t

end

/-! ## What the state remembers -/

/-- The exchanges with a binding and the tags of consumers have short names. -/
structure State.ShortNames (s : State) : Prop where
  bound : ∀ e q, s.isBound e q = true → Short e
  tag : ∀ q p, p ∈ s.consumersOf q → Short p.1

theorem shortNames_init (env : Env) : (State.init env).ShortNames where
  bound := fun _ _ no => by cases no
  tag := fun _ _ no => by cases no

section
variable {env : Env} {b : Broker}

/-- An operation that binds short names only keeps the names of bound exchanges short. -/
theorem bound_short (integral : b.state.Integral) (h : b.state.ShortNames) {op : Operation}
    (short : ∀ e q, op.binds b.state.declared e q = true → Short e) (e q : Str)
    (bound : (op.step env b).state.isBound e q = true) : Short e := by
  rw [(op.step_effect env b integral).bound, Bool.or_eq_true, Bool.and_eq_true] at bound
  rcases bound with ⟨old, _⟩ | new
  · exact h.bound e q old
  · exact short e q new

variable (env) in
theorem shortNames_turn (integral : b.state.Integral) (h : b.state.ShortNames) (t : Turn)
    (decoded : t.Decoded) : (Turn.step env b t).state.ShortNames := by
  cases t with
  | start c =>
      have same := Turn.start_state env b c
      rwa [same]
  | lost c => exact h
  | http op =>
      have bound : ∀ e q, (Operation.step env b (.http op)).state.isBound e q = true → Short e := by
        refine bound_short integral h ?_
        intro e q binds
        cases op with
        | declareQueue name =>
            simp only [Operation.binds, Bool.and_eq_true, decide_eq_true_eq] at binds
            rw [binds.1]
            exact short_nil
        | _ => cases binds
      exact ⟨bound, fun q p mem => h.tag q p ((http_after env op b).old q p mem)⟩
  | frame c f =>
      obtain ⟨data, read⟩ := decoded
      rcases dispatch_state_cases env c f b with same | ⟨op, asked, moved⟩
      · rwa [Turn.step, same]
      · have stepped : (Turn.step env b (.frame c f)).state = (Operation.step env b (.call op)).state := by
          rw [Operation.step, after_onState]
          exact moved
        rw [stepped]
        refine ⟨bound_short integral h ?_, ?_⟩
        · intro e q binds
          cases op with
          | bindQueue queue exchange =>
              simp only [Operation.binds, Bool.and_eq_true, decide_eq_true_eq] at binds
              rw [← binds.1.1.2]
              exact argStr_short read asked.1.method (by decide) asked.2.2
          | declareQueue name =>
              simp only [Operation.binds, Bool.and_eq_true, decide_eq_true_eq] at binds
              rw [binds.1]
              exact short_nil
          | _ => cases binds
        · rintro q ⟨tag, consumer⟩ mem
          rw [Operation.step, after_onState] at mem
          rcases State.registered_of_call ⟨q, mem⟩ with ⟨q', old⟩ | ⟨q', _, rfl, _⟩
          · exact h.tag q' _ old
          · exact argStr_short read asked.2.1.method (by decide) asked.2.2.1

end

/-- In every run the names stay short. -/
theorem shortNames_run (env : Env) (draws : Nat → Draw) {turns : List Turn}
    (decoded : ∀ t ∈ turns, t.Decoded) :
    (Runs.run (Turn.step env) (Broker.init env draws) turns).state.ShortNames := by
  have both : (Runs.run (Turn.step env) (Broker.init env draws) turns).state.Integral ∧
      (Runs.run (Turn.step env) (Broker.init env draws) turns).state.ShortNames := by
    induction turns using List.reverseRecOn with
    | nil => exact ⟨State.integral_init env, shortNames_init env⟩
    | append_singleton turns t ih =>
        obtain ⟨integral, short⟩ := ih fun u hu => decoded u (List.mem_append_left _ hu)
        rw [Runs.run_append]
        exact ⟨integral_turn env _ t integral, shortNames_turn env integral short t
          (decoded t (List.mem_append_right _ List.mem_cons_self))⟩
  exact both.2

theorem reachable_shortNames {env : Env} {b : Broker} (h : Reachable env b) : b.state.ShortNames := by
  obtain ⟨draws, actions, rfl⟩ := h
  rw [Server.run_refines]
  exact shortNames_run env draws (Server.turnsOf_decoded env _ actions)

end MockAmqp
