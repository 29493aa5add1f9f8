import MockAmqp.Formats
import MockAmqp.Method

/-!
# The arguments of methods

What a decoder makes of the arguments written for its method, field by field.
-/

namespace MockAmqp
open Exec

namespace MethodId

/-- The format of the decoder. -/
def format : MethodId → List Char
  | startOk => ['F', 's', 'S', 's']
  | tuneOk => ['B', 'l', 'B']
  | connectionOpen => ['s', 's', 'b']
  | connectionClose => []
  | channelOpen => ['s']
  | channelClose => ['B', 's', 'B', 'B']
  | basicCancel => ['s', 'b']
  | basicQos => ['l', 'B', 'b']
  | basicPublish => ['B', 's', 's', 'b', 'b']
  | basicConsume => ['B', 's', 's', 'b', 'b', 'b', 'b', 'F']
  | basicAck => ['L', 'b']
  | basicNack => ['L', 'b', 'b']
  | exchangeDeclare => ['B', 's', 's', 'b', 'b', 'b', 'b', 'b', 'F']
  | queueDeclare => ['B', 's', 'b', 'b', 'b', 'b', 'b', 'F']
  | queueBind => ['B', 's', 's', 's', 'b', 'F']

/-- The fields of the method in the order of the protocol. -/
def fieldNames : MethodId → List ArgName
  | startOk => [.peerProperties, .mechanism, .response, .locale]
  | tuneOk => [.channelMax, .frameMax, .heartbeat]
  | connectionOpen => [.vhost, .capabilities, .insist]
  | connectionClose => []
  | channelOpen => [.reserved1]
  | channelClose => [.replyCode, .replyText, .classId, .methodId]
  | basicCancel => [.consumerTag, .noWait]
  | basicQos => [.prefetchSize, .prefetchCount, .global]
  | basicPublish => [.reserved1, .exchangeName, .routingKey, .mandatory, .immediate]
  | basicConsume =>
      [.reserved1, .queueName, .consumerTag, .noLocal, .noAck, .exclusive, .noWait, .arguments]
  | basicAck => [.deliveryTag, .multiple]
  | basicNack => [.deliveryTag, .multiple, .requeue]
  | exchangeDeclare => [.reserved1, .exchangeName, .type, .passive, .durable, .autoDelete,
      .internal, .noWait, .arguments]
  | queueDeclare => [.reserved1, .queueName, .passive, .durable, .exclusive, .autoDelete, .noWait,
      .arguments]
  | queueBind => [.reserved1, .queueName, .exchangeName, .routingKey, .noWait, .arguments]

/-- The indices that the decoder of exchange.declare reads. -/
def exchangeFields : List (ArgName × Nat) :=
  [(.reserved1, 0), (.exchangeName, 1), (.type, 2), (.passive, 3), (.durable, 4),
    (.autoDelete, 5), (.internal, 6), (.noWait, 6), (.arguments, 7)]

/-- The names with the indices under which the decoder reads them. -/
def fields : MethodId → List (ArgName × Nat)
  | exchangeDeclare => exchangeFields
  | m => m.fieldNames.zipIdx

theorem decoder_eq {m : MethodId} (other : m ≠ connectionClose) :
    m.decoder = decodeArgs (String.ofList m.format) m.fields := by
  cases m with
  | connectionClose => exact absurd rfl other
  | _ => rfl

theorem code_lt (m : MethodId) : m.code < 256 ^ 4 := by
  cases m <;> decide

theorem fits (m : MethodId) : BitsFit 0 m.format := by
  cases m <;> simp [format, BitsFit]

theorem fieldNames_distinct (m : MethodId) : m.fieldNames.Nodup := by
  cases m <;> decide

end MethodId

theorem mapM_values {values : List Val} {names : List (ArgName × Nat)}
    (all : ∀ p ∈ names, p.2 < values.length) :
    (names.mapM fun p => match values[p.2]? with
      | some v => Except.ok (p.1, v)
      | none => Except.error PyError.indexError) =
      .ok (names.map fun p => (p.1, values[p.2]?.getD .none)) := by
  induction names with
  | nil => rfl
  | cons p names ih =>
      obtain ⟨first, rest⟩ := List.forall_mem_cons.mp all
      rw [List.mapM_cons, ih rest, List.map_cons, List.getElem?_eq_getElem first]
      rfl

/-- The decoder finds the values that were written behind the method's number. -/
theorem decodeArgs_eq {format : List Char} {values : List Val} {names : List (ArgName × Nat)}
    {payload front arguments : Bytes} (behind : payload = front ++ arguments)
    (length : front.length = 4)
    (reads : ∀ buf offset, Placed buf offset arguments → ∃ read,
      loads format buf offset = .ok (read, offset + arguments.length) ∧
        List.Forall₂ Val.Equal values read)
    (all : ∀ p ∈ names, p.2 < values.length) :
    ∃ read, List.Forall₂ Val.Equal values read ∧
      decodeArgs (String.ofList format) names payload =
        .ok (.ofList (names.map fun p => (p.1, read[p.2]?.getD .none))) := by
  have placed : Placed payload 4 arguments := by
    have there := Placed.between front arguments []
    rwa [length, List.append_nil, ← behind] at there
  obtain ⟨read, loaded, same⟩ := reads payload 4 placed
  refine ⟨read, same, ?_⟩
  have indices : ∀ p ∈ names, p.2 < read.length := same.length_eq ▸ all
  unfold decodeArgs
  rw [String.toList_ofList, loaded]
  exact except_bind_eq_ok.mpr ⟨_, rfl, except_bind_eq_ok.mpr ⟨_, mapM_values indices, rfl⟩⟩

/-- Each field has the value that was written for it, and there are no other fields. -/
def FieldsFaithful (m : MethodId) (values : List Val) : Prop :=
  ∃ arguments, dumps m.format values = .ok arguments ∧ ∀ n size, ∃ method,
    decodePayload 1 n size (beBytes 4 m.code ++ arguments) = .ok (some (.method method)) ∧
      method.methodId = m ∧
      ∀ name, Option.Rel Val.Equal (OrderedDict.get? (.ofList (m.fieldNames.zip values)) name)
        (method.properties.get? name)

section
variable {m : MethodId} {values : List Val}

/-- What `Method` makes of the arguments of a method. -/
theorem method_made (other : m ≠ .connectionClose)
    (inRange : List.Forall₂ InRange m.format values)
    (all : ∀ p ∈ m.fields, p.2 < values.length) :
    ∃ arguments read, dumps m.format values = .ok arguments ∧
      List.Forall₂ Val.Equal values read ∧ ∀ n size,
        decodePayload 1 n size (beBytes 4 m.code ++ arguments) = .ok (some (.method
          ⟨n, size, m, .ofList (m.fields.map fun p => (p.1, read[p.2]?.getD .none))⟩)) := by
  obtain ⟨arguments, dumped, reads⟩ := dumps_loads inRange m.fits
  obtain ⟨read, same, decoded⟩ :=
    decodeArgs_eq (rfl : beBytes 4 m.code ++ arguments = _ ++ _) (length_beBytes 4 _) reads all
  refine ⟨arguments, read, dumped, same, fun n size => ?_⟩
  have code : unpackFrom 4 (beBytes 4 m.code ++ arguments) 0 = .ok m.code :=
    unpackFrom_beBytes (List.prefix_append _ _) m.code_lt
  have made : Method.make n size m.code (beBytes 4 m.code ++ arguments) = .ok
      ⟨n, size, m, .ofList (m.fields.map fun p => (p.1, read[p.2]?.getD .none))⟩ := by
    refine except_bind_eq_ok.mpr ⟨m, MethodId.ofCode_code m, ?_⟩
    rw [MethodId.decoder_eq other]
    exact except_bind_eq_ok.mpr ⟨_, decoded, rfl⟩
  unfold decodePayload
  rw [if_pos rfl]
  exact except_bind_eq_ok.mpr ⟨_, code, except_bind_eq_ok.mpr ⟨_, made, rfl⟩⟩

theorem length_format (m : MethodId) : m.fieldNames.length = m.format.length := by
  cases m <;> rfl

theorem fields_zip {names : List ArgName} {read : List Val} (length : names.length = read.length) :
    names.zipIdx.map (fun p => (p.1, read[p.2]?.getD .none)) = names.zip read := by
  apply List.ext_getElem
  · simp [length]
  · intro i first second
    have inside : i < read.length := by
      rw [List.length_zip] at second
      omega
    simp [inside]

theorem zip_distinct (m : MethodId) {values : List Val}
    (length : values.length = m.format.length) :
    ((m.fieldNames.zip values).map Prod.fst).Nodup := by
  rw [List.map_fst_zip]
  · exact m.fieldNames_distinct
  · rw [length, length_format]

/-- The decoder of exchange.declare reads the bit of no-wait where the table stands. -/
theorem exchangeDeclare_misplaced
    (inRange : List.Forall₂ InRange MethodId.exchangeDeclare.format values) :
    ¬ FieldsFaithful .exchangeDeclare values := by
  rintro ⟨arguments, dumped, faithful⟩
  have length : values.length = 9 := inRange.length_eq.symm
  obtain ⟨arguments', read, dumped', same, made⟩ := method_made (by decide) inRange (by
    rw [length]
    decide)
  cases dumped.symm.trans dumped'
  obtain ⟨method, decoded, _, named⟩ := faithful 0 0
  cases decoded.symm.trans (made 0 0)
  rcases inRange with _ | ⟨_, _ | ⟨_, _ | ⟨_, _ | ⟨_, _ | ⟨_, _ | ⟨_, _ | ⟨_, _ | ⟨bit, _ | ⟨table, _ | _⟩⟩⟩⟩⟩⟩⟩⟩⟩
  rcases same with _ | ⟨_, _ | ⟨_, _ | ⟨_, _ | ⟨_, _ | ⟨_, _ | ⟨_, _ | ⟨_, _ | ⟨same7, _ | ⟨_, _ | _⟩⟩⟩⟩⟩⟩⟩⟩⟩
  cases bit
  cases table
  cases same7
  have wrong : Option.Rel Val.Equal (some (.dict _)) (some (.bool _)) := named .arguments
  cases wrong with
  | some same => cases same

/-- Every method but exchange.declare has its arguments under their own names. -/
theorem fieldsFaithful_iff (other : m ≠ .connectionClose)
    (inRange : List.Forall₂ InRange m.format values) :
    FieldsFaithful m values ↔ m ≠ .exchangeDeclare := by
  have length : values.length = m.format.length := inRange.length_eq.symm
  constructor
  · rintro faithful rfl
    exact exchangeDeclare_misplaced inRange faithful
  · intro right
    have own : m.fields = m.fieldNames.zipIdx := by
      cases m with
      | exchangeDeclare => exact absurd rfl right
      | _ => rfl
    have all : ∀ p ∈ m.fields, p.2 < values.length := by
      intro p member
      rw [own] at member
      have bound := List.snd_lt_of_mem_zipIdx member
      rw [length, ← length_format]
      omega
    obtain ⟨arguments, read, dumped, same, made⟩ := method_made other inRange all
    refine ⟨arguments, dumped, fun n size => ⟨_, made n size, rfl, fun name => ?_⟩⟩
    have length' : read.length = m.format.length := same.length_eq.symm.trans length
    rw [own, fields_zip (by rw [length', length_format]), OrderedDict.get?, OrderedDict.get?,
      OrderedDict.entries_ofList (zip_distinct m length),
      OrderedDict.entries_ofList (zip_distinct m length')]
    exact OrderedDict.lookup_zip same _ name

end

/-- A durable exchange without further arguments is declared and the server is to answer. -/
def sampleDeclare : List Val :=
  [.int 0, .str (str "logs"), .str (str "topic"), .bool false, .bool true, .bool false, .bool false,
    .bool false, .dict []]

theorem exchangeDeclare_unfaithful : ¬ FieldsFaithful .exchangeDeclare sampleDeclare := by
  refine exchangeDeclare_misplaced ?_
  exact .cons (.short (n := 0) (by decide)) (.cons (.shortstr (by decide))
    (.cons (.shortstr (by decide)) (.cons (.bit false) (.cons (.bit true) (.cons (.bit false)
      (.cons (.bit false) (.cons (.bit false) (.cons (.table empty_encodable) .nil))))))))

theorem basicQos_faithful :
    FieldsFaithful .basicQos [.int 0, .int 20, .bool true] ↔
      MethodId.basicQos ≠ .exchangeDeclare :=
  fieldsFaithful_iff (by decide)
    (.cons (.long (n := 0) (by decide)) (.cons (.short (n := 20) (by decide))
      (.cons (.bit true) .nil)))

end MockAmqp
