import MockAmqp.ContentHeader

/-!
# Properties of every kind

The values of JSON that the encoder accepts in a content header, and what it makes of those that are
not of the kind of their property.
-/

namespace MockAmqp
open Exec

/-! ## Values of JSON -/

/-- A value that `json.loads` can return, with no name twice in an object. -/
inductive Val.Loaded : Val → Prop
  | none : Loaded .none
  | bool (b : Bool) : Loaded (.bool b)
  | int (i : Int) : Loaded (.int i)
  | float (bits : Nat) : Loaded (.float bits)
  | str (s : Str) : Loaded (.str s)
  | list {items : List Val} (all : ∀ v ∈ items, Loaded v) : Loaded (.list items)
  | dict {entries : List (Str × Val)} (all : ∀ p ∈ entries, Loaded p.2)
      (distinct : (entries.map Prod.fst).Nodup) : Loaded (.dict entries)

theorem forall₂_unique {α : Type} {R : α → α → Prop} {xs ys : List α}
    (only : ∀ x ∈ xs, ∀ y, R x y → y = x) (related : List.Forall₂ R xs ys) : ys = xs := by
  induction related with
  | nil => rfl
  | cons first _ ih =>
      rw [List.forall_mem_cons] at only
      rw [only.1 _ first, ih only.2]

/-- Without decimals, equal values are the same. -/
theorem Val.Loaded.eq_of_equal {v : Val} (loaded : v.Loaded) : ∀ w, v.Equal w → w = v := by
  induction loaded with
  | list _ ih =>
      intro w same
      cases same with
      | refl => rfl
      | list items => rw [forall₂_unique ih items]
  | dict _ _ ih =>
      intro w same
      cases same with
      | refl => rfl
      | dict keys values =>
          have second := forall₂_unique (fun v member => by
            obtain ⟨p, mem, rfl⟩ := List.mem_map.mp member
            exact ih p mem) values
          rw [List.zip_of_prod keys.symm second, ← List.zip_of_prod rfl rfl]
  | _ =>
      intro w same
      cases same
      rfl

/-! ## What the encoder accepts in a table -/

theorem packUnsigned_fits {width : Nat} {i : Int} {b : Bytes} (packed : packUnsigned width i = .ok b) :
    0 ≤ i ∧ i < 2 ^ (8 * width) := by
  unfold packUnsigned at packed
  split at packed
  · next fits => exact fits
  · cases packed

theorem packSigned_fits {width : Nat} {i : Int} {b : Bytes} (packed : packSigned width i = .ok b) :
    -2 ^ (8 * width - 1) ≤ i ∧ i < 2 ^ (8 * width - 1) := by
  unfold packSigned at packed
  split at packed
  · next fits => exact fits
  · cases packed

theorem lengthPrefixed_fits {width : Nat} {b c : Bytes} (written : lengthPrefixed width b = .ok c) :
    b.length < 2 ^ (8 * width) := by
  obtain ⟨_, packed, _⟩ := except_bind_eq_ok.mp written
  exact_mod_cast (packUnsigned_fits packed).2

theorem ok_of_orFrameSyntaxError {text : String} {r : Except PyError Bytes} {b : Bytes}
    (h : orFrameSyntaxError text r = .ok b) : r = .ok b := by
  cases r with
  | error e => cases h
  | ok c => exact h

theorem arrayData_written {items : List Val} {b : Bytes} (data : arrayData items = .ok b) :
    ∀ v ∈ items, ∃ c, writeItem v = .ok c := by
  induction items generalizing b with
  | nil => simp
  | cons v rest ih =>
      rw [arrayData] at data
      obtain ⟨item, first, data⟩ := except_bind_eq_ok.mp data
      obtain ⟨_, later, _⟩ := except_bind_eq_ok.mp data
      exact List.forall_mem_cons.mpr ⟨⟨item, ok_of_orFrameSyntaxError first⟩, ih later⟩

theorem tableData_written {entries : List (Str × Val)} {b : Bytes} (data : tableData entries = .ok b) :
    ∀ p ∈ entries, (encodePass p.1).length ≤ 255 ∧ ∃ c, writeItem p.2 = .ok c := by
  induction entries generalizing b with
  | nil => simp
  | cons p rest ih =>
      obtain ⟨k, v⟩ := p
      rw [tableData] at data
      obtain ⟨_, key, data⟩ := except_bind_eq_ok.mp data
      obtain ⟨item, first, data⟩ := except_bind_eq_ok.mp data
      obtain ⟨_, later, _⟩ := except_bind_eq_ok.mp data
      have short := lengthPrefixed_fits key
      exact List.forall_mem_cons.mpr
        ⟨⟨Nat.le_of_lt_succ short, item, ok_of_orFrameSyntaxError first⟩, ih later⟩

/-- What the encoder writes for a table or an array of JSON is read back. -/
theorem Val.Loaded.encodable {v : Val} (loaded : v.Loaded) :
    ∀ b, writeItem v = .ok b → v.Encodable := by
  induction loaded with
  | none => exact fun _ _ => .none
  | bool b => exact fun _ _ => .bool b
  | int i =>
      intro b written
      rw [writeItem] at written
      split at written
      · obtain ⟨_, packed, _⟩ := except_bind_eq_ok.mp written
        have fits := packSigned_fits packed
        exact .int fits.1 fits.2
      · exact .int (by omega) (by omega)
  | float bits =>
      intro b written
      rw [writeItem] at written
      obtain ⟨_, packed, _⟩ := except_bind_eq_ok.mp written
      have fits := (packUnsigned_fits packed).2
      exact .float (by exact_mod_cast fits)
  | str s =>
      intro b written
      rw [writeItem] at written
      obtain ⟨_, prefixed, _⟩ := except_bind_eq_ok.mp written
      exact .str (lengthPrefixed_fits prefixed)
  | list _ ih =>
      intro b written
      rw [writeItem] at written
      obtain ⟨data, items, written⟩ := except_bind_eq_ok.mp written
      obtain ⟨_, prefixed, _⟩ := except_bind_eq_ok.mp written
      refine .list (fun v mem => ?_) fun b' same => ?_
      · obtain ⟨c, item⟩ := arrayData_written items v mem
        exact ih v mem c item
      · cases items.symm.trans same
        exact lengthPrefixed_fits prefixed
  | dict _ distinct ih =>
      intro b written
      rw [writeItem] at written
      obtain ⟨data, entries, written⟩ := except_bind_eq_ok.mp written
      obtain ⟨_, prefixed, _⟩ := except_bind_eq_ok.mp written
      refine .dict (fun p mem => ?_) (fun p mem => (tableData_written entries p mem).1) distinct
        fun b' same => ?_
      · obtain ⟨_, c, item⟩ := tableData_written entries p mem
        exact ih p mem c item
      · cases entries.symm.trans same
        exact lengthPrefixed_fits prefixed

/-! ## What the encoder makes of a property -/

/-- The value that is read back for a property of this format. -/
def asWritten (format : Char) (v : Val) : Val :=
  if format = 's' then if v.truthy then v else .str []
  else if format = 'F' then if v.truthy then v else .dict []
  else match v with
    | .bool b => .int (if b then 1 else 0)
    | v => v

/-- The value is of the kind that the format is for. -/
def Val.HasKind (v : Val) (format : Char) : Prop :=
  match v with
  | .str _ => format = 's'
  | .int _ => format = 'o' ∨ format = 'L'
  | .dict _ => format = 'F'
  | _ => False

theorem property_formats : ∀ p ∈ PROPERTIES, p.2.1 = 's' ∨ p.2.1 = 'F' ∨ p.2.1 = 'o' ∨ p.2.1 = 'L' := by
  decide

section
variable {v : Val} {p : Char}

theorem asWritten_string (v : Val) : asWritten 's' v = if v.truthy then v else .str [] := rfl

theorem asWritten_table (v : Val) : asWritten 'F' v = if v.truthy then v else .dict [] := rfl

theorem writeString_asWritten (v : Val) : writeString 1 (asWritten 's' v) = writeString 1 v := by
  rw [asWritten_string]
  by_cases truthy : v.truthy = true
  · rw [if_pos truthy]
  · rw [if_neg truthy, writeString, writeString, if_neg truthy]
    rfl

theorem writeTable_falsy (falsy : ¬ v.truthy = true) : writeTable v = lengthPrefixed 4 [] :=
  if_neg falsy

theorem writeTable_asWritten (v : Val) : writeTable (asWritten 'F' v) = writeTable v := by
  rw [asWritten_table]
  by_cases truthy : v.truthy = true
  · rw [if_pos truthy]
  · rw [if_neg truthy, writeTable_falsy truthy]
    exact writeTable_falsy Bool.false_ne_true

theorem index_asWritten (number : p = 'o' ∨ p = 'L') (v : Val) : (asWritten p v).index = v.index := by
  rcases number with rfl | rfl
  · cases v <;> rfl
  · cases v <;> rfl

/-- The encoder writes the same for both. -/
theorem dumpOne_asWritten (listed : p = 's' ∨ p = 'F' ∨ p = 'o' ∨ p = 'L') (st : DumpState)
    (v : Val) : dumpOne st p (asWritten p v) = dumpOne st p v := by
  rcases listed with rfl | rfl | rfl | rfl
  · simp only [dumpOne, writeString_asWritten]
  · simp only [dumpOne, writeTable_asWritten]
  · simp only [dumpOne, index_asWritten (.inl rfl)]
  · simp only [dumpOne, index_asWritten (.inr rfl)]

/-- Text or bytes are written, or nothing for a value that is false. -/
theorem writeString_text (truthy : v.truthy = true) {b : Bytes} (written : writeString 1 v = .ok b) :
    ∃ text, v.encoded = some text ∧ lengthPrefixed 1 text = .ok b := by
  rw [writeString, if_pos truthy] at written
  cases encoded : v.encoded with
  | some text =>
      rw [encoded] at written
      exact ⟨text, rfl, written⟩
  | none =>
      rw [encoded] at written
      obtain ⟨_, _, written⟩ := except_bind_eq_ok.mp written
      obtain ⟨_, _, written⟩ := except_bind_eq_ok.mp written
      cases written

theorem string_inRange (loaded : v.Loaded) {b : Bytes} (written : writeString 1 v = .ok b) :
    InRange 's' (asWritten 's' v) := by
  rw [asWritten_string]
  by_cases truthy : v.truthy = true
  · rw [if_pos truthy]
    obtain ⟨text, encoded, prefixed⟩ := writeString_text truthy written
    cases loaded with
    | str s =>
        cases encoded
        exact .shortstr (Nat.le_of_lt_succ (lengthPrefixed_fits prefixed))
    | _ => cases encoded
  · rw [if_neg truthy]
    exact .shortstr (by decide)

theorem writeTable_entries (truthy : v.truthy = true) {b : Bytes} (written : writeTable v = .ok b) :
    ∃ entries, v = .dict entries ∧ writeItem v = .ok (ascii "F" ++ b) := by
  cases v with
  | dict entries =>
      have shape : writeTable (.dict entries) = tableData entries >>= lengthPrefixed 4 :=
        if_pos truthy
      rw [shape] at written
      obtain ⟨data, collected, prefixed⟩ := except_bind_eq_ok.mp written
      refine ⟨entries, rfl, ?_⟩
      rw [writeItem]
      exact except_bind_eq_ok.mpr ⟨data, collected, except_bind_eq_ok.mpr ⟨b, prefixed, rfl⟩⟩
  | _ =>
      have refused : writeTable _ = .error .attributeError := if_pos truthy
      cases refused.symm.trans written

theorem table_inRange (loaded : v.Loaded) {b : Bytes} (written : writeTable v = .ok b) :
    InRange 'F' (asWritten 'F' v) := by
  rw [asWritten_table]
  by_cases truthy : v.truthy = true
  · rw [if_pos truthy]
    obtain ⟨entries, rfl, item⟩ := writeTable_entries truthy written
    exact .table (loaded.encodable _ item)
  · rw [if_neg truthy]
    exact .table empty_encodable

/-- The number that is packed, for a number or a boolean. -/
theorem number_asWritten (number : p = 'o' ∨ p = 'L') {i : Int} (index : v.index = .ok i) :
    asWritten p v = .int i := by
  rcases number with rfl | rfl
  · cases v <;> cases index <;> rfl
  · cases v <;> cases index <;> rfl

/-- What the encoder accepts for a property is in the range of its format. -/
theorem written_inRange (listed : p = 's' ∨ p = 'F' ∨ p = 'o' ∨ p = 'L') (loaded : v.Loaded)
    {st st' : DumpState} (written : dumpOne st p v = .ok st') : InRange p (asWritten p v) := by
  rcases listed with rfl | rfl | rfl | rfl
  · obtain ⟨b, text, _⟩ := except_bind_eq_ok.mp written
    exact string_inRange loaded text
  · obtain ⟨b, table, _⟩ := except_bind_eq_ok.mp written
    exact table_inRange loaded table
  · obtain ⟨i, index, written⟩ := except_bind_eq_ok.mp written
    obtain ⟨b, packed, _⟩ := except_bind_eq_ok.mp written
    obtain ⟨low, high⟩ := packUnsigned_fits packed
    obtain ⟨n, rfl⟩ := Int.eq_ofNat_of_zero_le low
    rw [number_asWritten (.inl rfl) index]
    exact .octet (by exact_mod_cast high)
  · obtain ⟨i, index, written⟩ := except_bind_eq_ok.mp written
    obtain ⟨b, packed, _⟩ := except_bind_eq_ok.mp written
    obtain ⟨low, high⟩ := packUnsigned_fits packed
    obtain ⟨n, rfl⟩ := Int.eq_ofNat_of_zero_le low
    rw [number_asWritten (.inr rfl) index]
    exact .longlong (by exact_mod_cast high)

/-- An accepted value is read back as it was exactly if it is of the right kind. -/
theorem asWritten_eq_iff (listed : p = 's' ∨ p = 'F' ∨ p = 'o' ∨ p = 'L')
    (inRange : InRange p (asWritten p v)) : asWritten p v = v ↔ v.HasKind p := by
  constructor
  · intro same
    rw [same] at inRange
    rcases listed with rfl | rfl | rfl | rfl
    · cases inRange with
      | shortstr _ => rfl
    · cases inRange with
      | table _ => rfl
    · cases inRange with
      | octet _ => exact .inl rfl
    · cases inRange with
      | longlong _ => exact .inr rfl
  · intro kind
    cases v with
    | str s =>
        cases kind
        cases s <;> rfl
    | int i =>
        rcases kind with rfl | rfl
        · rfl
        · rfl
    | dict entries =>
        cases kind
        cases entries <;> rfl
    | _ => cases kind

end

theorem Val.Loaded.asWritten {v : Val} (loaded : v.Loaded) (format : Char) :
    (MockAmqp.asWritten format v).Loaded := by
  unfold MockAmqp.asWritten
  split
  · split
    · exact loaded
    · exact .str []
  · split
    · split
      · exact loaded
      · exact .dict (by simp) (by simp)
    · cases loaded with
      | none => exact .none
      | bool b => exact .int _
      | int i => exact .int i
      | float bits => exact .float bits
      | str s => exact .str s
      | list all => exact .list all
      | dict all distinct => exact .dict all distinct

/-! ## The properties of a dictionary -/

section
variable (entries : List (Str × Val))

/-- The properties of the dictionary, as they are read back. -/
def writtenEntries : List (Str × Val) :=
  (presentProperties entries).map fun p => (p.1, asWritten p.2.1 (valueOf entries p))

theorem writtenEntries_distinct : ((writtenEntries entries).map Prod.fst).Nodup := by
  rw [writtenEntries, List.map_map]
  exact presentNames_distinct

/-- The encoder accepts every property of the dictionary. -/
def Accepted : Prop :=
  ∀ p ∈ presentProperties entries, InRange p.2.1 (asWritten p.2.1 (valueOf entries p))

end

section
variable {entries : List (Str × Val)} {name : Str} {v w : Val}

theorem valueOf_eq {p : Str × Char × Nat} (found : entries.lookup p.1 = some v) :
    valueOf entries p = v := by
  rw [valueOf, found]
  rfl

theorem writtenEntries_lookup : (writtenEntries entries).lookup name = some w ↔
    ∃ format bit v, (name, format, bit) ∈ PROPERTIES ∧ entries.lookup name = some v ∧
      w = asWritten format v := by
  rw [OrderedDict.lookup_eq_some_iff (writtenEntries_distinct entries), writtenEntries, List.mem_map]
  constructor
  · rintro ⟨p, member, same⟩
    obtain ⟨name', format, bit⟩ := p
    cases same
    obtain ⟨listed, v, found⟩ := mem_presentProperties.mp member
    exact ⟨format, bit, v, listed, found, by rw [valueOf_eq found]⟩
  · rintro ⟨format, bit, v, listed, found, rfl⟩
    refine ⟨(name, format, bit), mem_presentProperties.mpr ⟨listed, v, found⟩, ?_⟩
    rw [valueOf_eq found]

theorem Accepted.inRange (accepted : Accepted entries) {format : Char} {bit : Nat}
    (listed : (name, format, bit) ∈ PROPERTIES) (found : entries.lookup name = some v) :
    InRange format (asWritten format v) := by
  have here := accepted (name, format, bit) (mem_presentProperties.mpr ⟨listed, v, found⟩)
  rwa [valueOf_eq found] at here

theorem Accepted.properties (accepted : Accepted entries) : BasicProperties (writtenEntries entries) where
  distinct := writtenEntries_distinct entries
  known := by
    intro q member
    obtain ⟨p, present, rfl⟩ := List.mem_map.mp member
    exact ⟨p.2.1, p.2.2, (mem_presentProperties.mp present).1, accepted p present⟩

variable (entries) in
/-- The same properties are present. -/
theorem presentProperties_written :
    presentProperties (writtenEntries entries) = presentProperties entries := by
  refine List.filter_congr fun p listed => ?_
  rw [Bool.eq_iff_iff, isPresent, isPresent, Option.isSome_iff_exists, Option.isSome_iff_exists]
  constructor
  · rintro ⟨w, found⟩
    obtain ⟨_, _, v, _, found, _⟩ := writtenEntries_lookup.mp found
    exact ⟨v, found⟩
  · rintro ⟨v, found⟩
    exact ⟨_, writtenEntries_lookup.mpr ⟨p.2.1, p.2.2, v, listed, found, rfl⟩⟩

theorem valueOf_written {p : Str × Char × Nat} (present : p ∈ presentProperties entries) :
    valueOf (writtenEntries entries) p = asWritten p.2.1 (valueOf entries p) := by
  obtain ⟨listed, v, found⟩ := mem_presentProperties.mp present
  rw [valueOf_eq found]
  exact valueOf_eq (writtenEntries_lookup.mpr ⟨p.2.1, p.2.2, v, listed, found, rfl⟩)

/-! ## The arguments of the content header -/

theorem dumpAll_behind {front : List Char} {first : List Val} {format : List Char}
    {values values' : List Val} (length : front.length = first.length)
    (same : ∀ st, dumpAll format values st = dumpAll format values' st) (st : DumpState) :
    dumpAll (front ++ format) (first ++ values) st =
      dumpAll (front ++ format) (first ++ values') st := by
  induction front generalizing first st with
  | nil =>
      cases first with
      | nil => exact same st
      | cons _ _ => cases length
  | cons p front ih =>
      cases first with
      | nil => cases length
      | cons v first =>
          have step : ∀ rest : List Val, dumpAll (p :: front ++ format) (v :: first ++ rest) st =
              (dumpOne st p v >>= dumpAll (front ++ format) (first ++ rest)) := fun _ => rfl
          rw [step, step]
          exact congrArg _ (funext fun st => ih (Nat.succ.inj length) st)

theorem dumpAll_asWritten {table : List (Str × Char × Nat)} (listed : ∀ p ∈ table, p ∈ PROPERTIES)
    (f : Str × Char × Nat → Val) (st : DumpState) :
    dumpAll (table.map (·.2.1)) (table.map fun p => asWritten p.2.1 (f p)) st =
      dumpAll (table.map (·.2.1)) (table.map f) st := by
  induction table generalizing st with
  | nil => rfl
  | cons p table ih =>
      rw [List.forall_mem_cons] at listed
      have step : ∀ v rest, dumpAll (p.2.1 :: table.map (·.2.1)) (v :: rest) st =
          (dumpOne st p.2.1 v >>= dumpAll (table.map (·.2.1)) rest) := fun _ _ => rfl
      rw [List.map_cons, List.map_cons, List.map_cons, step, step,
        dumpOne_asWritten (property_formats p listed.1)]
      exact congrArg _ (funext fun st => ih listed.2 st)

/-- The arguments, from what is collected. -/
theorem headerArguments_collected {properties : Val} {flags : Nat} {formats : List Char}
    {values : List Val} (collected : collectProperties properties PROPERTIES = .ok (flags, formats, values))
    (bodySize : Nat) : headerArguments properties bodySize =
      dumpAll (['B', 'B', 'L', 'B'] ++ formats)
        ([.int 60, .int 0, .int bodySize, .int flags] ++ values) ⟨0, [], []⟩ := by
  have letters : "BBLB".toList = ['B', 'B', 'L', 'B'] := rfl
  have step : ∀ f : Nat × List Char × List Val → Except PyError Bytes,
      (collectProperties properties PROPERTIES >>= f) = f (flags, formats, values) := by
    intro f
    rw [collected]
    rfl
  rw [headerArguments, step]
  dsimp only
  rw [dumps, letters]

variable (entries) in
/-- A dictionary is written as what is read back of it would be. -/
theorem headerArguments_written (bodySize : Nat) :
    headerArguments (.dict (writtenEntries entries)) bodySize =
      headerArguments (.dict entries) bodySize := by
  have flags : flagWord (writtenEntries entries) = flagWord entries := by
    rw [← flagWord_eq, presentProperties_written, flagWord_eq]
  have values : (presentProperties entries).map (valueOf (writtenEntries entries)) =
      (presentProperties entries).map fun p => asWritten p.2.1 (valueOf entries p) :=
    List.map_congr_left fun p present => valueOf_written present
  rw [headerArguments_collected (collectProperties_present _),
    headerArguments_collected (collectProperties_present _), presentProperties_written, flags, values]
  refine dumpAll_behind rfl (fun st => ?_) _
  exact dumpAll_asWritten (fun p present => (mem_presentProperties.mp present).1) _ st

theorem dumpAll_accepts {table : List (Str × Char × Nat)} {f : Str × Char × Nat → Val}
    {st : DumpState} {b : Bytes} (dumped : dumpAll (table.map (·.2.1)) (table.map f) st = .ok b) :
    ∀ p ∈ table, ∃ st st', dumpOne st p.2.1 (f p) = .ok st' := by
  induction table generalizing st with
  | nil => simp
  | cons p table ih =>
      obtain ⟨st', one, rest⟩ := except_bind_eq_ok.mp dumped
      exact List.forall_mem_cons.mpr ⟨⟨st, st', one⟩, ih rest⟩

/-- A content header that is written has accepted all the properties of the dictionary. -/
theorem accepted_of_written (loaded : ∀ p ∈ entries, p.2.Loaded) {bodySize : Nat} {b : Bytes}
    (encoded : headerArguments (.dict entries) bodySize = .ok b) : Accepted entries := by
  rw [headerArguments_collected (collectProperties_present entries)] at encoded
  obtain ⟨_, _, encoded⟩ := except_bind_eq_ok.mp encoded
  obtain ⟨_, _, encoded⟩ := except_bind_eq_ok.mp encoded
  obtain ⟨_, _, encoded⟩ := except_bind_eq_ok.mp encoded
  obtain ⟨_, _, encoded⟩ := except_bind_eq_ok.mp encoded
  intro p present
  obtain ⟨st, st', one⟩ := dumpAll_accepts encoded p present
  obtain ⟨listed, v, found⟩ := mem_presentProperties.mp present
  have value : (valueOf entries p).Loaded := by
    rw [valueOf_eq found]
    obtain ⟨_, _, split, _⟩ := List.lookup_eq_some_iff.mp found
    exact loaded (p.1, v) (by simp [split])
  exact written_inRange (property_formats p listed) value one

/-- The content header that is read has what the encoder has made of the dictionary. -/
theorem header_written (loaded : ∀ p ∈ entries, p.2.Loaded) {n frameSize bodySize : Nat} {b : Bytes}
    (encoded : headerArguments (.dict entries) bodySize = .ok b) (size : bodySize < 2 ^ 64) :
    ∃ h, decodePayload 2 n frameSize b = .ok (some (.header h)) ∧
      ∀ name, h.properties.get? name = (writtenEntries entries).lookup name := by
  have accepted := accepted_of_written loaded encoded
  obtain ⟨_, h, encoded', decodes, read⟩ := header_make n frameSize size accepted.properties
  rw [headerArguments_written] at encoded'
  cases encoded.symm.trans encoded'
  refine ⟨h, decodes, fun name => ?_⟩
  have same := read.properties name
  generalize h.properties.get? name = there at same
  cases found : (writtenEntries entries).lookup name with
  | none =>
      rw [found] at same
      cases same
      rfl
  | some w =>
      rw [found] at same
      cases same with
      | some equal =>
          obtain ⟨format, _, v, _, here, rfl⟩ := writtenEntries_lookup.mp found
          obtain ⟨_, _, split, _⟩ := List.lookup_eq_some_iff.mp here
          have value : v.Loaded := loaded (name, v) (by simp [split])
          rw [(value.asWritten format).eq_of_equal _ equal]

/-! ## Delivered headers -/

/-- The entry is among the basic properties, or in the table of application headers. -/
def Header.Delivers (h : Header) (name : Str) (v : Val) : Prop :=
  (∃ w, h.properties.get? name = some w ∧ v.Equal w) ∨
    ∃ table w, h.properties.get? (str "application_headers") = some (.dict table) ∧
      table.lookup name = some w ∧ v.Equal w

variable (entries name v) in
/-- The value is written under this name, or it stands there in a table of application headers. -/
def Reaches : Prop :=
  (∃ format bit w, (name, format, bit) ∈ PROPERTIES ∧ entries.lookup name = some w ∧
      v = asWritten format w) ∨
    ∃ table, entries.lookup (str "application_headers") = some (.dict table) ∧
      table.lookup name = some v

variable (entries name v) in
/-- The entry is a property with a value of its kind, or stands in a table of application headers. -/
def Carried : Prop :=
  (∃ format bit, (name, format, bit) ∈ PROPERTIES ∧ v.HasKind format) ∨
    ∃ table, entries.lookup (str "application_headers") = some (.dict table) ∧
      table.lookup name = some v

theorem application_headers : (str "application_headers", 'F', 2 ^ 13) ∈ PROPERTIES := by decide

/-- The table that is read back is the one of the dictionary, or was put in for want of one. -/
theorem written_table {table : List (Str × Val)} {w : Val} (some_entry : table.lookup name = some w) :
    (writtenEntries entries).lookup (str "application_headers") = some (.dict table) ↔
      entries.lookup (str "application_headers") = some (.dict table) := by
  rw [writtenEntries_lookup]
  constructor
  · rintro ⟨format, bit, v, listed, found, same⟩
    have one : (str "application_headers", format, bit) = (str "application_headers", 'F', 2 ^ 13) :=
      List.inj_on_of_nodup_map names_distinct listed application_headers rfl
    cases one
    rw [asWritten_table] at same
    split at same
    · rw [found, same]
    · cases same
      cases some_entry
  · intro found
    refine ⟨'F', 2 ^ 13, _, application_headers, found, ?_⟩
    rw [asWritten_table]
    cases table with
    | nil => cases some_entry
    | cons p rest => rfl

/-- Of the values of JSON, those are delivered that reach the content header. -/
theorem delivers_iff_reaches (loaded : v.Loaded) {h : Header}
    (read : ∀ name, h.properties.get? name = (writtenEntries entries).lookup name) :
    h.Delivers name v ↔ Reaches entries name v := by
  unfold Header.Delivers Reaches
  rw [read, read, ← writtenEntries_lookup]
  constructor
  · rintro (⟨w, found, same⟩ | ⟨table, w, found, inside, same⟩)
    · cases loaded.eq_of_equal _ same
      exact .inl found
    · cases loaded.eq_of_equal _ same
      exact .inr ⟨table, (written_table inside).mp found, inside⟩
  · rintro (found | ⟨table, found, inside⟩)
    · exact .inl ⟨v, found, .refl v⟩
    · exact .inr ⟨table, v, (written_table inside).mpr found, inside, .refl v⟩

/-- An entry of the dictionary reaches the content header exactly if it is carried. -/
theorem reaches_iff_carried (accepted : Accepted entries) (supplied : entries.lookup name = some v) :
    Reaches entries name v ↔ Carried entries name v := by
  refine or_congr_left ?_
  constructor
  · rintro ⟨format, bit, w, listed, found, same⟩
    cases supplied.symm.trans found
    exact ⟨format, bit, listed, (asWritten_eq_iff (property_formats _ listed)
      (accepted.inRange listed found)).mp same.symm⟩
  · rintro ⟨format, bit, listed, kind⟩
    exact ⟨format, bit, v, listed, supplied, ((asWritten_eq_iff (property_formats _ listed)
      (accepted.inRange listed supplied)).mpr kind).symm⟩

end

end MockAmqp
