import MockAmqp.Lib.Exec
import MockAmqp.Layout
import MockAmqp.Serialization

/-!
# Tables and arrays on the wire

What is written for a nested value is read back as an equal one, wherever it stands in a buffer.
-/

namespace MockAmqp
open Exec

/-! ## Equal values -/

/-- Equality of decoded values: decimals are compared as numbers, dictionaries with their order,
and a boolean is no number. -/
inductive Val.Equal : Val → Val → Prop
  | refl (v : Val) : Equal v v
  | decimal {c e c' e' : Int} (number : (c : ℚ) * 10 ^ e = c' * 10 ^ e') :
      Equal (.decimal c e) (.decimal c' e')
  | list {xs ys : List Val} (items : List.Forall₂ Equal xs ys) : Equal (.list xs) (.list ys)
  | dict {xs ys : List (Str × Val)} (keys : xs.map Prod.fst = ys.map Prod.fst)
      (values : List.Forall₂ Equal (xs.map Prod.snd) (ys.map Prod.snd)) :
      Equal (.dict xs) (.dict ys)

/-- The values a table or an array can carry, with every length in the range of its field. -/
inductive Val.Encodable : Val → Prop
  | none : Encodable .none
  | bool (b : Bool) : Encodable (.bool b)
  | int {i : Int} (low : -2 ^ 63 ≤ i) (high : i < 2 ^ 63) : Encodable (.int i)
  | float {bits : Nat} (double : bits < 2 ^ 64) : Encodable (.float bits)
  | decimal {c e : Int} (low : -2 ^ 31 ≤ c) (high : c < 2 ^ 31) (exponent : -255 ≤ e ∧ e ≤ 0) :
      Encodable (.decimal c e)
  | str {s : Str} (short : (encodePass s).length < 2 ^ 32) : Encodable (.str s)
  | list {items : List Val} (all : ∀ v ∈ items, Encodable v)
      (short : ∀ b, arrayData items = .ok b → b.length < 2 ^ 32) : Encodable (.list items)
  | dict {entries : List (Str × Val)} (all : ∀ p ∈ entries, Encodable p.2)
      (keys : ∀ p ∈ entries, (encodePass p.1).length ≤ 255)
      (distinct : (entries.map Prod.fst).Nodup)
      (short : ∀ b, tableData entries = .ok b → b.length < 2 ^ 32) : Encodable (.dict entries)

theorem decimalDiv_eq (n : Int) (d : Nat) :
    ∃ c e, decimalDiv n d = .decimal c e ∧ (n : ℚ) * 10 ^ (-(d : Int)) = c * 10 ^ e := by
  induction d generalizing n with
  | zero => exact ⟨n, 0, rfl, rfl⟩
  | succ d ih =>
      by_cases whole : n % 10 = 0
      · obtain ⟨c, e, read, number⟩ := ih (n / 10)
        refine ⟨c, e, by rw [decimalDiv, if_pos whole, read], ?_⟩
        have tens : (n : ℚ) = 10 * ((n / 10 : Int) : ℚ) := by
          exact_mod_cast (show n = 10 * (n / 10) by omega)
        have step : (10 : ℚ) ^ (-((d + 1 : Nat) : Int)) = 10 ^ (-(d : Int)) / 10 := by
          rw [Nat.cast_succ, neg_add, ← sub_eq_add_neg, zpow_sub_one₀ (by norm_num),
            div_eq_mul_inv]
        rw [← number, tens, step]
        ring
      · exact ⟨n, -(d + 1 : Nat), by rw [decimalDiv, if_neg whole], rfl⟩

/-! ## Single items -/

theorem bytesToStr_encodePass (s : Str) : bytesToStr (encodePass s) = .ok s :=
  decodeUtf8_encodePass fun _ _ => .inl rfl

theorem lengthPrefixed_ok {width : Nat} {b : Bytes} (short : b.length < 256 ^ width) :
    lengthPrefixed width b = .ok (beBytes width b.length ++ b) := by
  rw [lengthPrefixed, packUnsigned_ok short]
  rfl

/-- The item is written, and read back as an equal one where it stands. -/
def Val.RoundTrips (v : Val) : Prop :=
  ∃ tag b, writeItem v = .ok (tag :: b) ∧
    ∀ fuel buf offset, b.length ≤ fuel → Placed buf offset (tag :: b) →
      ∃ w, readItem (fuel + 1) buf offset = .ok (w, offset + 1 + b.length) ∧ v.Equal w

theorem none_roundTrips : Val.none.RoundTrips := by
  refine ⟨86, [], rfl, fun fuel buf offset _ placed => ⟨.none, ?_, .refl _⟩⟩
  rw [readItem, placed.getElem?_eq]
  rfl

/-- An item of one field of a fixed width. -/
theorem field_roundTrips {v w : Val} {tag : UInt8} {width n : Nat}
    (written : writeItem v = .ok (tag :: beBytes (width + 1) n)) (fits : n < 256 ^ (width + 1))
    (read : ∀ fuel buf offset, buf[offset]? = some tag →
      unpackFrom (width + 1) buf (offset + 1) = .ok n →
        readItem (fuel + 1) buf offset = .ok (w, offset + 1 + (width + 1)))
    (same : v.Equal w) : v.RoundTrips := by
  refine ⟨tag, _, written, fun fuel buf offset _ placed => ⟨w, ?_, same⟩⟩
  rw [length_beBytes]
  exact read fuel buf offset placed.getElem?_eq (unpackFrom_beBytes placed.tail fits)

theorem bool_roundTrips (b : Bool) : (Val.bool b).RoundTrips := by
  have written : writeItem (.bool b) = .ok (116 :: beBytes 1 (if b then 1 else 0)) := by
    cases b with
    | false => rfl
    | true => rfl
  refine field_roundTrips written (by split <;> decide) ?_ (.refl _)
  intro fuel buf offset tag field
  rw [readItem, tag]
  show (unpackFrom 1 buf (offset + 1) >>= fun n => Except.ok (Val.bool (n ≠ 0), offset + 2)) = _
  rw [field]
  cases b with
  | false => rfl
  | true => rfl

theorem float_roundTrips {bits : Nat} (double : bits < 2 ^ 64) : (Val.float bits).RoundTrips := by
  have written : writeItem (.float bits) = .ok (100 :: beBytes 8 bits) := by
    rw [writeItem, packUnsigned_ok double]
    rfl
  refine field_roundTrips written double ?_ (.refl _)
  intro fuel buf offset tag field
  rw [readItem, tag]
  show (unpackFrom 8 buf (offset + 1) >>= fun n => Except.ok (Val.float n, offset + 9)) = _
  rw [field]
  rfl

/-- Beyond 32 bits the writer goes over to the tag of 64 bits, one number early below. -/
theorem int_roundTrips {i : Int} (low : -2 ^ 63 ≤ i) (high : i < 2 ^ 63) :
    (Val.int i).RoundTrips := by
  by_cases long : i > 2147483647 ∨ i < -2147483647
  · have written : writeItem (.int i) = .ok (76 :: beBytes 8 (i % 2 ^ (8 * 8)).toNat) := by
      rw [writeItem, if_pos long, packSigned_ok low high]
      rfl
    refine field_roundTrips written (emod_fits 8 i) ?_ (.refl _)
    intro fuel buf offset tag field
    rw [readItem, tag]
    show (unpackFrom 8 buf (offset + 1) >>= fun n =>
      Except.ok (Val.int (toSigned 8 n), offset + 9)) = _
    rw [field]
    show Except.ok (Val.int (toSigned 8 (i % 2 ^ (8 * 8)).toNat), offset + 9) = _
    rw [toSigned_emod (by decide) low high]
  · have written : writeItem (.int i) = .ok (73 :: beBytes 4 (i % 2 ^ (8 * 4)).toNat) := by
      rw [writeItem, if_neg long, packSigned_ok (by omega) (by omega)]
      rfl
    refine field_roundTrips written (emod_fits 4 i) ?_ (.refl _)
    intro fuel buf offset tag field
    rw [readItem, tag]
    show (unpackFrom 4 buf (offset + 1) >>= fun n =>
      Except.ok (Val.int (toSigned 4 n), offset + 5)) = _
    rw [field]
    show Except.ok (Val.int (toSigned 4 (i % 2 ^ (8 * 4)).toNat), offset + 5) = _
    rw [toSigned_emod (by decide) (by omega) (by omega)]

theorem decimal_roundTrips {c e : Int} (low : -2 ^ 31 ≤ c) (high : c < 2 ^ 31)
    (exponent : -255 ≤ e ∧ e ≤ 0) : (Val.decimal c e).RoundTrips := by
  obtain ⟨places, rfl⟩ : ∃ d : Nat, e = -(d : Int) := ⟨(-e).toNat, by omega⟩
  have few : places < 256 ^ 1 := by omega
  have written : writeItem (.decimal c (-places)) =
      .ok (68 :: (beBytes 1 places ++ beBytes 4 (c % 2 ^ (8 * 4)).toNat)) := by
    rw [writeItem, neg_neg, packUnsigned_ok few, packSigned_ok low high]
    rfl
  obtain ⟨c', e', read, number⟩ := decimalDiv_eq c places
  refine ⟨68, _, written, fun fuel buf offset _ placed => ⟨.decimal c' e', ?_, .decimal number⟩⟩
  have first := unpackFrom_beBytes placed.tail.left few
  have second := unpackFrom_beBytes placed.tail.right (emod_fits 4 c)
  rw [length_beBytes] at second
  rw [readItem, placed.getElem?_eq]
  show (unpackFrom 1 buf (offset + 1) >>= fun d => unpackFrom 4 buf (offset + 1 + 1) >>= fun n =>
    Except.ok (decimalDiv (toSigned 4 n) d, offset + 6)) = _
  rw [first]
  show (unpackFrom 4 buf (offset + 1 + 1) >>= fun n =>
    Except.ok (decimalDiv (toSigned 4 n) places, offset + 6)) = _
  rw [second]
  show Except.ok (decimalDiv (toSigned 4 (c % 2 ^ (8 * 4)).toNat) places, offset + 6) = _
  rw [toSigned_emod (by decide) low high, read]
  rfl

/-- Text after its length is read back where it stands. -/
theorem text_placed {buf : Bytes} {offset width : Nat} {s : Str}
    (h : Placed buf offset (beBytes (width + 1) (encodePass s).length ++ encodePass s))
    (short : (encodePass s).length < 256 ^ (width + 1)) :
    unpackFrom (width + 1) buf offset = .ok (encodePass s).length ∧
      bytesToStr (slice buf (offset + (width + 1))
        (offset + (width + 1) + (encodePass s).length)) = .ok s := by
  have text := h.right
  rw [length_beBytes] at text
  exact ⟨unpackFrom_beBytes h.left short, by rw [slice_placed text, bytesToStr_encodePass]⟩

theorem str_roundTrips {s : Str} (short : (encodePass s).length < 2 ^ 32) :
    (Val.str s).RoundTrips := by
  have written : writeItem (.str s) =
      .ok (83 :: (beBytes 4 (encodePass s).length ++ encodePass s)) := by
    rw [writeItem, lengthPrefixed_ok short]
    rfl
  refine ⟨83, _, written, fun fuel buf offset _ placed => ⟨.str s, ?_, .refl _⟩⟩
  obtain ⟨length, text⟩ := text_placed placed.tail short
  rw [readItem, placed.getElem?_eq]
  show (unpackFrom 4 buf (offset + 1) >>= fun slen =>
    bytesToStr (slice buf (offset + 1 + 4) (offset + 1 + 4 + slen)) >>= fun val =>
      Except.ok (Val.str val, offset + 1 + 4 + slen)) = _
  rw [length]
  show (bytesToStr (slice buf (offset + 1 + 4) (offset + 1 + 4 + (encodePass s).length)) >>=
    fun val => Except.ok (Val.str val, offset + 1 + 4 + (encodePass s).length)) = _
  rw [text, List.length_append, length_beBytes, ← Nat.add_assoc]
  rfl

/-! ## Arrays and tables -/

theorem itemsRoundTrip {items : List Val} (all : ∀ v ∈ items, v.RoundTrips) :
    ∃ b, arrayData items = .ok b ∧ ∀ fuel buf offset val, b.length ≤ fuel → Placed buf offset b →
      ∃ read, readArray (fuel + 1) buf offset (offset + b.length) val =
        .ok (val ++ read, offset + b.length) ∧ List.Forall₂ Val.Equal items read := by
  induction items with
  | nil =>
      refine ⟨[], rfl, fun fuel buf offset val _ _ => ⟨[], ?_, .nil⟩⟩
      rw [readArray, if_neg (by simp), List.append_nil]
      rfl
  | cons v rest ih =>
      obtain ⟨⟨tag, b, item, readsItem⟩, later⟩ := List.forall_mem_cons.mp all
      obtain ⟨more, data, readsRest⟩ := ih later
      refine ⟨tag :: b ++ more, ?_, fun fuel buf offset val enough placed => ?_⟩
      · rw [arrayData, item, data]
        rfl
      · rw [List.length_append, List.length_cons] at enough
        obtain ⟨fuel, rfl⟩ : ∃ f, fuel = f + 1 := ⟨fuel - 1, by omega⟩
        obtain ⟨w, first, same⟩ := readsItem fuel buf offset (by omega) placed.left
        have second := placed.right
        obtain ⟨read, ended, sames⟩ := readsRest fuel buf _ (val ++ [w]) (by omega) second
        refine ⟨w :: read, ?_, .cons same sames⟩
        have middle : offset + 1 + b.length = offset + (tag :: b).length := by
          rw [List.length_cons]
          omega
        have stop : offset + (tag :: b ++ more).length =
            offset + (tag :: b).length + more.length := by
          rw [List.length_append, Nat.add_assoc]
        rw [readArray, if_pos (by rw [stop, ← middle]; omega), first, stop]
        show readArray (fuel + 1) buf (offset + 1 + b.length) _ (val ++ [w]) = _
        rw [middle, ended, List.append_assoc]
        rfl

theorem entriesRoundTrip {entries : List (Str × Val)} (all : ∀ p ∈ entries, p.2.RoundTrips)
    (keys : ∀ p ∈ entries, (encodePass p.1).length ≤ 255) :
    ∃ b, tableData entries = .ok b ∧ ∀ fuel buf offset val, b.length ≤ fuel → Placed buf offset b →
      ((val ++ entries).map Prod.fst).Nodup →
      ∃ read, readTable (fuel + 1) buf offset (offset + b.length) val =
          .ok (val ++ read, offset + b.length) ∧ entries.map Prod.fst = read.map Prod.fst ∧
        List.Forall₂ Val.Equal (entries.map Prod.snd) (read.map Prod.snd) := by
  induction entries with
  | nil =>
      refine ⟨[], rfl, fun fuel buf offset val _ _ _ => ⟨[], ?_, rfl, .nil⟩⟩
      rw [readTable, if_neg (by simp), List.append_nil]
      rfl
  | cons p rest ih =>
      obtain ⟨k, v⟩ := p
      obtain ⟨⟨tag, b, item, readsItem⟩, later⟩ := List.forall_mem_cons.mp all
      obtain ⟨short, shorts⟩ := List.forall_mem_cons.mp keys
      obtain ⟨more, data, readsRest⟩ := ih later shorts
      have fits : (encodePass k).length < 256 ^ (0 + 1) := Nat.lt_succ_of_le short
      have key := lengthPrefixed_ok fits
      refine ⟨beBytes 1 (encodePass k).length ++ encodePass k ++ (tag :: b) ++ more, ?_,
        fun fuel buf offset val enough placed distinct => ?_⟩
      · rw [tableData, key, item, data]
        rfl
      · have size : (beBytes 1 (encodePass k).length ++ encodePass k).length =
            1 + (encodePass k).length := by rw [List.length_append, length_beBytes]
        have whole : (beBytes 1 (encodePass k).length ++ encodePass k ++ (tag :: b) ++ more).length =
            1 + (encodePass k).length + (1 + b.length) + more.length := by
          simp only [List.length_append, length_beBytes, List.length_cons]
          omega
        rw [whole] at enough ⊢
        obtain ⟨fuel, rfl⟩ : ∃ f, fuel = f + 1 := ⟨fuel - 1, by omega⟩
        obtain ⟨length, text⟩ := text_placed placed.left.left fits
        obtain ⟨w, first, same⟩ := readsItem fuel buf _ (by omega) placed.left.right
        have next := placed.right
        rw [List.map_append, List.map_cons] at distinct
        have fresh : k ∉ val.map Prod.fst := fun member =>
          List.disjoint_of_nodup_append distinct member List.mem_cons_self
        have distinct' : ((val ++ [(k, w)] ++ rest).map Prod.fst).Nodup := by simpa using distinct
        obtain ⟨read, ended, names, sames⟩ :=
          readsRest fuel buf _ (val ++ [(k, w)]) (by omega) next distinct'
        refine ⟨(k, w) :: read, ?_, by rw [List.map_cons, List.map_cons, names], .cons same sames⟩
        rw [size, ← Nat.add_assoc] at first
        have reached : offset + (beBytes 1 (encodePass k).length ++ encodePass k ++ tag :: b).length =
            offset + 1 + (encodePass k).length + 1 + b.length := by
          simp only [List.length_append, length_beBytes, List.length_cons]
          omega
        rw [reached] at ended
        have stop : offset + (1 + (encodePass k).length + (1 + b.length) + more.length) =
            offset + 1 + (encodePass k).length + 1 + b.length + more.length := by omega
        rw [readTable, if_pos (by omega), length]
        show (bytesToStr (slice buf (offset + 1) (offset + 1 + (encodePass k).length)) >>=
          fun key => readItem (fuel + 1) buf (offset + 1 + (encodePass k).length) >>= fun found =>
            readTable (fuel + 1) buf found.2 _ (assocSet val key found.1)) = _
        rw [text]
        show (readItem (fuel + 1) buf (offset + 1 + (encodePass k).length) >>= fun found =>
            readTable (fuel + 1) buf found.2 _ (assocSet val k found.1)) = _
        rw [first, stop]
        show readTable (fuel + 1) buf (offset + 1 + (encodePass k).length + 1 + b.length) _
          (assocSet val k w) = _
        rw [assocSet_fresh fresh, ended, List.append_assoc]
        rfl

theorem list_roundTrips {items : List Val} (all : ∀ v ∈ items, v.RoundTrips)
    (short : ∀ b, arrayData items = .ok b → b.length < 2 ^ 32) : (Val.list items).RoundTrips := by
  obtain ⟨b, data, reads⟩ := itemsRoundTrip all
  have fits : b.length < 256 ^ 4 := by simpa using short b data
  have written : writeItem (.list items) = .ok (65 :: (beBytes 4 b.length ++ b)) := by
    rw [writeItem]
    exact except_bind_eq_ok.mpr ⟨b, data,
      except_bind_eq_ok.mpr ⟨_, lengthPrefixed_ok fits, rfl⟩⟩
  refine ⟨65, _, written, fun fuel buf offset enough placed => ?_⟩
  rw [List.length_append, length_beBytes] at enough ⊢
  have length := unpackFrom_beBytes placed.tail.left fits
  have inside := placed.tail.right
  rw [length_beBytes] at inside
  obtain ⟨fuel, rfl⟩ : ∃ f, fuel = f + 1 := ⟨fuel - 1, by omega⟩
  obtain ⟨read, ended, same⟩ := reads fuel buf _ [] (by omega) inside
  refine ⟨.list read, ?_, .list same⟩
  rw [readItem, placed.getElem?_eq]
  show (unpackFrom 4 buf (offset + 1) >>= fun alen =>
    readArray (fuel + 1) buf (offset + 1 + 4) (offset + 1 + 4 + alen) [] >>= fun found =>
      Except.ok (Val.list found.1, found.2)) = _
  rw [length]
  show (readArray (fuel + 1) buf (offset + 1 + 4) (offset + 1 + 4 + b.length) [] >>= fun found =>
      Except.ok (Val.list found.1, found.2)) = _
  rw [ended, ← Nat.add_assoc]
  rfl

theorem dict_roundTrips {entries : List (Str × Val)} (all : ∀ p ∈ entries, p.2.RoundTrips)
    (keys : ∀ p ∈ entries, (encodePass p.1).length ≤ 255)
    (distinct : (entries.map Prod.fst).Nodup)
    (short : ∀ b, tableData entries = .ok b → b.length < 2 ^ 32) :
    (Val.dict entries).RoundTrips := by
  obtain ⟨b, data, reads⟩ := entriesRoundTrip all keys
  have fits : b.length < 256 ^ 4 := by simpa using short b data
  have written : writeItem (.dict entries) = .ok (70 :: (beBytes 4 b.length ++ b)) := by
    rw [writeItem]
    exact except_bind_eq_ok.mpr ⟨b, data,
      except_bind_eq_ok.mpr ⟨_, lengthPrefixed_ok fits, rfl⟩⟩
  refine ⟨70, _, written, fun fuel buf offset enough placed => ?_⟩
  rw [List.length_append, length_beBytes] at enough ⊢
  have length := unpackFrom_beBytes placed.tail.left fits
  have inside := placed.tail.right
  rw [length_beBytes] at inside
  obtain ⟨fuel, rfl⟩ : ∃ f, fuel = f + 1 := ⟨fuel - 1, by omega⟩
  obtain ⟨read, ended, names, same⟩ := reads fuel buf _ [] (by omega) inside distinct
  refine ⟨.dict read, ?_, .dict names same⟩
  rw [readItem, placed.getElem?_eq]
  show (unpackFrom 4 buf (offset + 1) >>= fun tlen =>
    readTable (fuel + 1) buf (offset + 1 + 4) (offset + 1 + 4 + tlen) [] >>= fun found =>
      Except.ok (Val.dict found.1, found.2)) = _
  rw [length]
  show (readTable (fuel + 1) buf (offset + 1 + 4) (offset + 1 + 4 + b.length) [] >>= fun found =>
      Except.ok (Val.dict found.1, found.2)) = _
  rw [ended, ← Nat.add_assoc]
  rfl

/-- Every value in range is written and read back. -/
theorem Val.Encodable.roundTrips {v : Val} (h : v.Encodable) : v.RoundTrips := by
  induction h with
  | none => exact none_roundTrips
  | bool b => exact bool_roundTrips b
  | int low high => exact int_roundTrips low high
  | float double => exact float_roundTrips double
  | decimal low high exponent => exact decimal_roundTrips low high exponent
  | str short => exact str_roundTrips short
  | list _ short ih => exact list_roundTrips ih short
  | dict _ keys distinct short ih => exact dict_roundTrips ih keys distinct short

/-! ## Tables and arrays as arguments -/

theorem length_le_itemFuel {buf b : Bytes} {offset : Nat} (h : Placed buf offset b) :
    b.length ≤ 2 * buf.length + 2 := by
  have fits := List.IsPrefix.length_le h
  rw [List.length_drop] at fits
  omega

theorem table_placed {entries : List (Str × Val)} (h : (Val.dict entries).Encodable) :
    ∃ b, writeTable (.dict entries) = .ok b ∧ ∀ buf offset, Placed buf offset b →
      ∃ tlen read, unpackFrom 4 buf offset = .ok tlen ∧
        readTable (itemFuel buf) buf (offset + 4) (offset + 4 + tlen) [] =
          .ok (read, offset + b.length) ∧ (Val.dict entries).Equal (.dict read) := by
  cases h with
  | dict all keys distinct short =>
      obtain ⟨b, data, reads⟩ := entriesRoundTrip (fun p member => (all p member).roundTrips) keys
      have fits : b.length < 256 ^ 4 := by simpa using short b data
      refine ⟨beBytes 4 b.length ++ b, ?_, fun buf offset placed => ?_⟩
      · cases entries with
        | nil =>
            cases data
            rfl
        | cons p rest =>
            exact except_bind_eq_ok.mpr ⟨b, data, lengthPrefixed_ok fits⟩
      · have inside := placed.right
        rw [length_beBytes] at inside
        obtain ⟨read, ended, names, same⟩ :=
          reads (2 * buf.length + 2) buf _ [] (length_le_itemFuel inside) inside distinct
        refine ⟨b.length, read, unpackFrom_beBytes placed.left fits, ?_, .dict names same⟩
        rw [List.length_append, length_beBytes, ← Nat.add_assoc]
        exact ended

theorem array_placed {items : List Val} (h : (Val.list items).Encodable) :
    ∃ b, writeArray (.list items) = .ok b ∧ ∀ buf offset, Placed buf offset b →
      ∃ alen read, unpackFrom 4 buf offset = .ok alen ∧
        readArray (itemFuel buf) buf (offset + 4) (offset + 4 + alen) [] =
          .ok (read, offset + b.length) ∧ (Val.list items).Equal (.list read) := by
  cases h with
  | list all short =>
      obtain ⟨b, data, reads⟩ := itemsRoundTrip fun v member => (all v member).roundTrips
      have fits : b.length < 256 ^ 4 := by simpa using short b data
      refine ⟨beBytes 4 b.length ++ b, ?_, fun buf offset placed => ?_⟩
      · cases items with
        | nil =>
            cases data
            rfl
        | cons v rest =>
            exact except_bind_eq_ok.mpr ⟨_, rfl,
              except_bind_eq_ok.mpr ⟨b, data, lengthPrefixed_ok fits⟩⟩
      · have inside := placed.right
        rw [length_beBytes] at inside
        obtain ⟨read, ended, same⟩ :=
          reads (2 * buf.length + 2) buf _ [] (length_le_itemFuel inside) inside
        refine ⟨b.length, read, unpackFrom_beBytes placed.left fits, ?_, .list same⟩
        rw [List.length_append, length_beBytes, ← Nat.add_assoc]
        exact ended

end MockAmqp
