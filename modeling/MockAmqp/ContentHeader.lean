import MockAmqp.Lib.Flags
import MockAmqp.Formats
import MockAmqp.Wire

/-!
# The content header

The sender and `Header` each have a table of the fourteen properties. What is sent under some of
their names is read back under the same ones.
-/

namespace MockAmqp
open Exec

/-- The place of a property's flag in the flag word. -/
def flagPlace (p : Str × Char × Nat) : Nat := Nat.log2 p.2.2

theorem two_pow_flagPlace : ∀ p ∈ PROPERTIES, 2 ^ flagPlace p = p.2.2 := by decide

theorem flags_descending : Flags.Descending flagPlace PROPERTIES := by
  unfold Flags.Descending
  decide

theorem flagPlace_lt : ∀ p ∈ PROPERTIES, flagPlace p < 16 := by decide

theorem names_distinct : (PROPERTIES.map Prod.fst).Nodup := by decide +kernel

/-- The table of the receiver is the table of the sender. -/
theorem header_PROPERTIES : Header.PROPERTIES = PROPERTIES := rfl

/-- Some of the fourteen properties, each with a value in range. -/
structure BasicProperties (entries : List (Str × Val)) : Prop where
  distinct : (entries.map Prod.fst).Nodup
  known : ∀ p ∈ entries, ∃ format bit, (p.1, format, bit) ∈ PROPERTIES ∧ InRange format p.2

/-! ## What the sender collects -/

section
variable (entries : List (Str × Val))

def isPresent (p : Str × Char × Nat) : Bool := (entries.lookup p.1).isSome

def valueOf (p : Str × Char × Nat) : Val := (entries.lookup p.1).getD .none

theorem collectProperties_dict (table : List (Str × Char × Nat)) :
    collectProperties (.dict entries) table =
      .ok (((table.filter (isPresent entries)).map (·.2.2)).sum,
        (table.filter (isPresent entries)).map (·.2.1),
        (table.filter (isPresent entries)).map (valueOf entries)) := by
  induction table with
  | nil => rfl
  | cons p table ih =>
      obtain ⟨name, format, bit⟩ := p
      rw [List.filter_cons]
      cases found : entries.lookup name with
      | none =>
          have absent : isPresent entries (name, format, bit) = false := by
            rw [isPresent, found]
            rfl
          have missing : (Val.dict entries).contains name = .ok false := by
            rw [Val.contains, found]
            rfl
          rw [absent, collectProperties, missing]
          exact ih
      | some v =>
          have present : isPresent entries (name, format, bit) = true := by
            rw [isPresent, found]
            rfl
          have there : (Val.dict entries).contains name = .ok true := by
            rw [Val.contains, found]
            rfl
          have value : (Val.dict entries).subscript name = .ok v := by
            rw [Val.subscript, found]
          have same : valueOf entries (name, format, bit) = v := by
            rw [valueOf, found]
            rfl
          rw [present, if_pos rfl, collectProperties, there, List.map_cons, List.map_cons,
            List.map_cons, List.sum_cons, same]
          exact except_bind_eq_ok.mpr ⟨true, rfl, except_bind_eq_ok.mpr ⟨v, value,
            except_bind_eq_ok.mpr ⟨_, ih, rfl⟩⟩⟩

/-- The properties present, in the order of the table. -/
def presentProperties : List (Str × Char × Nat) := PROPERTIES.filter (isPresent entries)

/-- The flag word. -/
def flagWord : Nat := Flags.word flagPlace (isPresent entries) PROPERTIES

theorem flagWord_eq : ((presentProperties entries).map (·.2.2)).sum = flagWord entries := by
  have same : (presentProperties entries).map (·.2.2) =
      (presentProperties entries).map fun p => 2 ^ flagPlace p :=
    List.map_congr_left fun p member =>
      (two_pow_flagPlace p (List.mem_of_mem_filter member)).symm
  rw [same]
  rfl

theorem collectProperties_present : collectProperties (.dict entries) PROPERTIES =
    .ok (flagWord entries, (presentProperties entries).map (·.2.1),
      (presentProperties entries).map (valueOf entries)) := by
  rw [collectProperties_dict, ← flagWord_eq]
  rfl

theorem flagWord_lt : flagWord entries < 2 ^ 16 := Flags.word_lt flags_descending flagPlace_lt

/-- The receiver finds the properties that the sender put into the flag word. -/
theorem filter_flagWord :
    (Header.PROPERTIES.filter fun p => flagWord entries &&& p.2.2 ≠ 0) =
      presentProperties entries := by
  have same : (PROPERTIES.filter fun p => flagWord entries &&& 2 ^ flagPlace p ≠ 0) =
      PROPERTIES.filter (isPresent entries) := Flags.filter_word flags_descending
  rw [header_PROPERTIES, presentProperties, ← same]
  refine List.filter_congr fun p member => ?_
  rw [two_pow_flagPlace p member]

end

section
variable {entries : List (Str × Val)}

theorem mem_presentProperties {p : Str × Char × Nat} :
    p ∈ presentProperties entries ↔ p ∈ PROPERTIES ∧ ∃ v, entries.lookup p.1 = some v := by
  rw [presentProperties, List.mem_filter, isPresent, Option.isSome_iff_exists]

/-- A property that is present has a value in the range of its own format. -/
theorem BasicProperties.inRange (properties : BasicProperties entries) :
    List.Forall₂ InRange ((presentProperties entries).map (·.2.1))
      ((presentProperties entries).map (valueOf entries)) := by
  rw [List.forall₂_map_left_iff, List.forall₂_map_right_iff]
  refine List.forall₂_same.mpr fun p member => ?_
  obtain ⟨listed, v, found⟩ := mem_presentProperties.mp member
  have entry := (OrderedDict.lookup_eq_some_iff properties.distinct _ _).mp found
  obtain ⟨format, bit, listed', inRange⟩ := properties.known _ entry
  have same : (p.1, format, bit) = p :=
    List.inj_on_of_nodup_map names_distinct listed' listed rfl
  have value : valueOf entries p = v := by
    rw [valueOf, found]
    rfl
  rw [value, ← same]
  exact inRange

theorem no_bit : ∀ p ∈ PROPERTIES, p.2.1 ≠ 'b' := by decide

theorem presentNames_distinct : ((presentProperties entries).map (·.1)).Nodup :=
  (List.filter_sublist.map _).nodup names_distinct

/-- The names that are present are looked up as in the dictionary. -/
theorem BasicProperties.get?_present (properties : BasicProperties entries) (name : Str)
    (distinct : ((((presentProperties entries).map (·.1)).zip
      ((presentProperties entries).map (valueOf entries))).map Prod.fst).Nodup) :
    OrderedDict.get? ⟨((presentProperties entries).map (·.1)).zip
      ((presentProperties entries).map (valueOf entries)), distinct⟩ name = entries.lookup name := by
  apply Option.ext
  intro v
  rw [OrderedDict.get?_eq_some_iff, OrderedDict.lookup_eq_some_iff properties.distinct]
  show (name, v) ∈ ((presentProperties entries).map (·.1)).zip
    ((presentProperties entries).map (valueOf entries)) ↔ _
  rw [List.zip_map', List.mem_map]
  constructor
  · rintro ⟨p, member, same⟩
    cases same
    obtain ⟨_, v, found⟩ := mem_presentProperties.mp member
    rw [valueOf, found]
    exact (OrderedDict.lookup_eq_some_iff properties.distinct _ _).mp found
  · intro entry
    obtain ⟨format, bit, listed, _⟩ := properties.known _ entry
    have found := (OrderedDict.lookup_eq_some_iff properties.distinct _ _).mpr entry
    refine ⟨(name, format, bit), mem_presentProperties.mpr ⟨listed, v, found⟩, ?_⟩
    rw [valueOf, found]
    rfl

/-! ## The payload -/

theorem bitsFit_of_no_bit {format : List Char} (none : 'b' ∉ format) (pending : Nat) :
    BitsFit pending format := by
  induction format generalizing pending with
  | nil => trivial
  | cons p format ih =>
      rw [List.mem_cons, not_or] at none
      rw [BitsFit, if_neg (Ne.symm none.1)]
      exact ih none.2 0

variable (entries) in
theorem present_no_bit : 'b' ∉ (presentProperties entries).map (·.2.1) := by
  intro bit
  obtain ⟨p, member, same⟩ := List.mem_map.mp bit
  exact no_bit p (mem_presentProperties.mp member).1 same

theorem dumpOne_short {n : Nat} (fits : n < 256 ^ 2) (st : DumpState) :
    dumpOne st 'B' (.int n) = .ok (st.flush.write (beBytes 2 n)) :=
  except_bind_eq_ok.mpr ⟨n, rfl, except_bind_eq_ok.mpr ⟨_, packUnsigned_ok fits, rfl⟩⟩

theorem dumpOne_longlong {n : Nat} (fits : n < 256 ^ 8) (st : DumpState) :
    dumpOne st 'L' (.int n) = .ok (st.flush.write (beBytes 8 n)) :=
  except_bind_eq_ok.mpr ⟨n, rfl, except_bind_eq_ok.mpr ⟨_, packUnsigned_ok fits, rfl⟩⟩

theorem dumpAll_cons {p : Char} {format : List Char} {v : Val} {values : List Val}
    {st st' : DumpState} (one : dumpOne st p v = .ok st') :
    dumpAll (p :: format) (v :: values) st = dumpAll format values st' := by
  rw [dumpAll, one]
  rfl

/-- The fixed fields of a content header. -/
def fixedFields (bodySize flags : Nat) : Bytes :=
  beBytes 2 60 ++ (beBytes 2 0 ++ (beBytes 8 bodySize ++ beBytes 2 flags))

theorem length_fixedFields (bodySize flags : Nat) : (fixedFields bodySize flags).length = 14 := by
  simp only [fixedFields, List.length_append, length_beBytes]

variable {bodySize : Nat}

/-- The properties stand behind the fixed fields, and are read back from there. -/
theorem headerArguments_eq (size : bodySize < 2 ^ 64) (properties : BasicProperties entries) :
    ∃ b, headerArguments (.dict entries) bodySize =
        .ok (fixedFields bodySize (flagWord entries) ++ b) ∧
      ∃ read, loads ((presentProperties entries).map (·.2.1))
          (fixedFields bodySize (flagWord entries) ++ b) 14 =
            .ok (read, 14 + b.length) ∧
        List.Forall₂ Val.Equal ((presentProperties entries).map (valueOf entries)) read := by
  have fits := bitsFit_of_no_bit (present_no_bit entries) 0
  obtain ⟨_, b, _, dumped, reads⟩ := dumpAll_loadAll properties.inRange (Nat.zero_le 8) fits
    (show (0 : UInt8).toNat < 2 ^ 0 by decide) (fixedFields bodySize (flagWord entries))
  have placed : Placed (fixedFields bodySize (flagWord entries) ++ b) 14 b := by
    have there := Placed.between (fixedFields bodySize (flagWord entries)) b []
    rwa [length_fixedFields, List.append_nil] at there
  refine ⟨b, ?_, reads _ 14 placed⟩
  have flags : flagWord entries < 256 ^ 2 := by simpa using flagWord_lt entries
  have body : bodySize < 256 ^ 8 := by simpa using size
  have sixty : ∀ st, dumpOne st 'B' (.int 60) = .ok (st.flush.write (beBytes 2 60)) :=
    dumpOne_short (n := 60) (by decide)
  have zero : ∀ st, dumpOne st 'B' (.int 0) = .ok (st.flush.write (beBytes 2 0)) :=
    dumpOne_short (n := 0) (by decide)
  have fields : DumpState.write (DumpState.flush (DumpState.write (DumpState.flush (DumpState.write
      (DumpState.flush (DumpState.write (DumpState.flush ⟨0, [], []⟩) (beBytes 2 60)))
      (beBytes 2 0))) (beBytes 8 bodySize))) (beBytes 2 (flagWord entries)) =
        DumpState.filled 0 0 (fixedFields bodySize (flagWord entries)) := by
    simp [DumpState.flush, DumpState.write, DumpState.filled, fixedFields]
  have letters : "BBLB".toList = ['B', 'B', 'L', 'B'] := rfl
  refine except_bind_eq_ok.mpr ⟨_, collectProperties_present entries, ?_⟩
  dsimp only
  rw [dumps, letters]
  simp only [List.cons_append, List.nil_append]
  rw [dumpAll_cons (sixty _), dumpAll_cons (zero _), dumpAll_cons (dumpOne_longlong body _)]
  rw [dumpAll_cons (dumpOne_short flags _), fields]
  rw [if_pos rfl, List.append_nil] at dumped
  exact dumped

/-- The fixed fields are read back, whatever stands behind them. -/
theorem fixedFields_read {flags : Nat} (size : bodySize < 2 ^ 64) (few : flags < 2 ^ 16) (b : Bytes) :
    unpackFrom 2 (slice (fixedFields bodySize flags ++ b) 0 14) 0 = .ok 60 ∧
      unpackFrom 8 (slice (fixedFields bodySize flags ++ b) 0 14) 4 = .ok bodySize ∧
      unpackFrom 2 (slice (fixedFields bodySize flags ++ b) 0 14) 12 = .ok flags := by
  have body : bodySize < 256 ^ 8 := by simpa using size
  have fits : flags < 256 ^ 2 := by simpa using few
  have front : slice (fixedFields bodySize flags ++ b) 0 14 = fixedFields bodySize flags :=
    slice_of_split [] _ b rfl rfl (length_fixedFields bodySize flags).symm
  have whole : Placed (fixedFields bodySize flags) 0 (fixedFields bodySize flags) :=
    List.prefix_rfl
  have second := whole.right
  have third := second.right
  have fourth := third.right
  rw [length_beBytes] at second third fourth
  rw [length_beBytes] at third fourth
  rw [length_beBytes] at fourth
  rw [front]
  exact ⟨unpackFrom_beBytes whole.left (by decide), unpackFrom_beBytes third.left body,
    unpackFrom_beBytes fourth fits⟩

/-- The header that is read has the dictionary's values under the dictionary's names. -/
structure HeaderOf (n bodySize size : Nat) (entries : List (Str × Val)) (h : Header) : Prop where
  channelNumber : h.channelNumber = n
  bodySize : h.bodySize = bodySize
  classId : h.classId = 60
  size : h.size = size
  properties : ∀ name, Option.Rel Val.Equal (entries.lookup name) (h.properties.get? name)

theorem header_make (n frameSize : Nat) (size : bodySize < 2 ^ 64)
    (properties : BasicProperties entries) : ∃ arguments h,
      headerArguments (.dict entries) bodySize = .ok arguments ∧
        decodePayload 2 n frameSize arguments = .ok (some (.header h)) ∧
        HeaderOf n bodySize frameSize entries h := by
  obtain ⟨b, encoded, read, loaded, same⟩ := headerArguments_eq size properties
  obtain ⟨first, second, third⟩ := fixedFields_read size (flagWord_lt entries) b
  have keys : ∀ values : List Val, values.length = (presentProperties entries).length →
      ((((presentProperties entries).map (·.1)).zip values).map Prod.fst).Nodup := by
    intro values length
    rw [List.map_fst_zip]
    · exact presentNames_distinct
    · rw [length, List.length_map]
  have length : read.length = (presentProperties entries).length := by
    rw [← same.length_eq, List.length_map]
  let h : Header := ⟨n, frameSize, 60, bodySize,
    .ofList (((presentProperties entries).map (·.1)).zip read)⟩
  refine ⟨_, h, encoded, ?_, rfl, rfl, rfl, rfl, fun name => ?_⟩
  · have made : Header.make n frameSize 60 bodySize (flagWord entries)
        (fixedFields bodySize (flagWord entries) ++ b) = .ok h := by
      unfold Header.make
      rw [filter_flagWord]
      exact except_bind_eq_ok.mpr ⟨_, loaded, rfl⟩
    unfold decodePayload
    rw [if_neg (by decide), if_neg (by decide), if_pos rfl]
    exact except_bind_eq_ok.mpr ⟨_, first, except_bind_eq_ok.mpr ⟨_, second,
      except_bind_eq_ok.mpr ⟨_, third, except_bind_eq_ok.mpr ⟨_, made, rfl⟩⟩⟩⟩
  · rw [← properties.get?_present name (keys _ (List.length_map _)), OrderedDict.get?,
      OrderedDict.get?, OrderedDict.entries_ofList (keys read length)]
    exact OrderedDict.lookup_zip same _ name

/-- A content header that fits its frame is written whole and read back, whatever follows it. -/
theorem contentHeader_roundTrips {n : Nat} (small : n < 256) (size : bodySize < 2 ^ 64)
    (properties : BasicProperties entries)
    (fits : ∀ arguments, headerArguments (.dict entries) bodySize = .ok arguments →
      arguments.length < 2 ^ 32) (t : Transport) :
    ∃ new h, sendContentHeader n (.dict entries) bodySize t = .ok () (t.put new) ∧
      (∀ later, readFrame (new ++ later) = .ok (some (.header h))) ∧
      HeaderOf n bodySize new.length entries h := by
  obtain ⟨arguments, _, encoded, _⟩ := header_make n 0 size properties
  have short := fits arguments encoded
  obtain ⟨arguments', h, encoded', decodes, read⟩ :=
    header_make n (arguments.length + 8) size properties
  cases encoded.symm.trans encoded'
  have number : (UInt16.ofNat n).toNat = n := by
    rw [UInt16.toNat_ofNat']
    omega
  have whole : (smallFrame 2 n arguments short).Decodes (.header h) := by
    rw [RawFrame.Decodes, smallFrame, number]
    exact decodes
  refine ⟨_, h, sendContentHeader_sent small encoded short t,
    fun later => RawFrame.readFrame_whole _ whole later, ?_⟩
  rw [RawFrame.length_bytes]
  exact read

end

/-- Three of the properties, not in the order of the table. -/
def sampleProperties : List (Str × Val) :=
  [(str "app_id", .str (str "mock")), (str "delivery_mode", .int 2),
    (str "application_headers", .dict sampleTable)]

theorem sampleProperties_roundTrip :
    ∃ new h, sendContentHeader 1 (.dict sampleProperties) 5 ⟨[], false⟩ =
        .ok () (Transport.put ⟨[], false⟩ new) ∧
      (∀ later, readFrame (new ++ later) = .ok (some (.header h))) ∧
      HeaderOf 1 5 new.length sampleProperties h := by
  have listed : (str "app_id", 's', 2 ^ 3) ∈ PROPERTIES ∧
      (str "delivery_mode", 'o', 2 ^ 12) ∈ PROPERTIES ∧
      (str "application_headers", 'F', 2 ^ 13) ∈ PROPERTIES ∧
      (sampleProperties.map Prod.fst).Nodup := by
    decide +kernel
  obtain ⟨app, mode, headers, distinct⟩ := listed
  have properties : BasicProperties sampleProperties := by
    refine ⟨distinct, ?_⟩
    simp only [sampleProperties, List.forall_mem_cons, List.not_mem_nil, false_implies,
      implies_true, and_true]
    exact ⟨⟨_, _, app, .shortstr (by decide)⟩, ⟨_, _, mode, .octet (n := 2) (by decide)⟩,
      ⟨_, _, headers, .table sampleTable_encodable⟩⟩
  have size : (headerArguments (.dict sampleProperties) 5).toOption.map List.length = some 56 := by
    decide +kernel
  refine contentHeader_roundTrips (by decide) (by decide) properties (fun arguments encoded => ?_) _
  rw [encoded] at size
  have length : arguments.length = 56 := Option.some.inj size
  omega

end MockAmqp
