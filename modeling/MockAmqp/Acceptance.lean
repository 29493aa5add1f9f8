import MockAmqp.Formats

/-!
# What the argument parser accepts

A slice past the end of the buffer is cut off silently, and the loop over a table or an array only
asks whether its limit is reached. The parser is complete where neither can go unnoticed.
-/

namespace MockAmqp
open Exec

/-! ## Running out of fuel -/

section
variable {buf : Bytes} {start stop offset : Nat}

/-- The item ends behind its tag, or it raises one of the exceptions of the program. -/
def Settled (start : Nat) (r : Except PyError (Val × Nat)) : Prop :=
  (∃ e, r = .error e ∧ e ≠ .outOfFuel) ∨ ∃ v stop, r = .ok (v, stop) ∧ start < stop

theorem settled_error {e : PyError} (other : e ≠ .outOfFuel) : Settled start (.error e) :=
  .inl ⟨e, rfl, other⟩

theorem settled_ok {v : Val} (later : start < stop) : Settled start (.ok (v, stop)) :=
  .inr ⟨v, stop, rfl, later⟩

theorem unpackFrom_fits {width n : Nat} (read : unpackFrom width buf offset = .ok n) :
    offset + width ≤ buf.length := by
  unfold unpackFrom at read
  split at read
  · assumption
  · cases read

theorem unpackFrom_error {width : Nat} {e : PyError} (failed : unpackFrom width buf offset = .error e) :
    e = .structError := by
  unfold unpackFrom at failed
  split at failed
  · cases failed
  · cases failed
    rfl

theorem utcfromtimestamp_error {n : Nat} {e : PyError} (failed : utcfromtimestamp n = .error e) :
    e = .valueError := by
  unfold utcfromtimestamp at failed
  split at failed
  · cases failed
  · cases failed
    rfl

theorem settled_unpack {width : Nat} {f : Nat → Except PyError (Val × Nat)}
    (rest : ∀ n, Settled start (f n)) : Settled start (unpackFrom width buf offset >>= f) := by
  cases read : unpackFrom width buf offset with
  | error e => exact settled_error (by rw [unpackFrom_error read]; simp)
  | ok n => exact rest n

theorem settled_text {b : Bytes} {f : Str → Except PyError (Val × Nat)}
    (rest : ∀ s, Settled start (f s)) : Settled start (bytesToStr b >>= f) := by
  cases text : bytesToStr b with
  | error e => exact settled_error (by rw [decodeUtf8_error text]; simp)
  | ok s => exact rest s

/-- Reading an item comes down to a table, to an array, or is settled at once. -/
theorem readItem_cases (fuel : Nat) (buf : Bytes) (start : Nat) :
    Settled start (readItem (fuel + 1) buf start) ∨ start + 5 ≤ buf.length ∧
      ((∃ tlen, readItem (fuel + 1) buf start =
          (readTable fuel buf (start + 1 + 4) (start + 1 + 4 + tlen) []).map fun x => (.dict x.1, x.2)) ∨
        ∃ alen, readItem (fuel + 1) buf start =
          (readArray fuel buf (start + 1 + 4) (start + 1 + 4 + alen) []).map fun x => (.list x.1, x.2)) := by
  rw [readItem]
  cases found : buf[start]? with
  | none => exact .inl (settled_error (by simp))
  | some tag =>
      dsimp only [bind, Except.bind]
      split
      · exact .inl (settled_unpack fun n => settled_text fun s => settled_ok (by omega))
      any_goals exact .inl (settled_unpack fun _ => settled_ok (by omega))
      · exact .inl (settled_unpack fun _ => settled_unpack fun _ => settled_ok (by omega))
      · cases length : unpackFrom 4 buf (start + 1) with
        | error e => exact .inl (settled_error (by rw [unpackFrom_error length]; simp))
        | ok tlen =>
            have inside := unpackFrom_fits length
            refine .inr ⟨by omega, .inl ⟨tlen, ?_⟩⟩
            dsimp only
            cases readTable fuel buf (start + 1 + 4) (start + 1 + 4 + tlen) [] with
            | error e => rfl
            | ok read => rfl
      · cases length : unpackFrom 4 buf (start + 1) with
        | error e => exact .inl (settled_error (by rw [unpackFrom_error length]; simp))
        | ok alen =>
            have inside := unpackFrom_fits length
            refine .inr ⟨by omega, .inr ⟨alen, ?_⟩⟩
            dsimp only
            cases readArray fuel buf (start + 1 + 4) (start + 1 + 4 + alen) [] with
            | error e => rfl
            | ok read => rfl
      · refine .inl (settled_unpack fun n => ?_)
        cases date : utcfromtimestamp n with
        | error e => exact settled_error (by rw [utcfromtimestamp_error date]; simp)
        | ok v => exact settled_ok (by omega)
      · exact .inl (settled_ok (by omega))
      · exact .inl (settled_error (by simp))

/-- The loops and the items in them move forward. -/
theorem reads_forward (buf : Bytes) (fuel : Nat) :
    (∀ start v stop, readItem fuel buf start = .ok (v, stop) → start < stop) ∧
      (∀ offset limit val read stop, readTable fuel buf offset limit val = .ok (read, stop) →
        offset ≤ stop) ∧
      ∀ offset limit val read stop, readArray fuel buf offset limit val = .ok (read, stop) →
        offset ≤ stop := by
  induction fuel with
  | zero => exact ⟨fun _ _ _ no => (by cases no), fun _ _ _ _ _ no => (by cases no),
      fun _ _ _ _ _ no => (by cases no)⟩
  | succ fuel ih =>
      obtain ⟨item, table, array⟩ := ih
      refine ⟨?_, ?_, ?_⟩
      · intro start v stop read
        rcases readItem_cases fuel buf start with settled | ⟨_, ⟨tlen, same⟩ | ⟨alen, same⟩⟩
        · rcases settled with ⟨e, failed, _⟩ | ⟨v', stop', done, later⟩
          · cases failed.symm.trans read
          · cases done.symm.trans read
            exact later
        · rw [same] at read
          cases entries : readTable fuel buf (start + 1 + 4) (start + 1 + 4 + tlen) [] with
          | error e =>
              rw [entries] at read
              cases read
          | ok found =>
              have ended := table _ _ _ _ _ entries
              rw [entries] at read
              cases read
              omega
        · rw [same] at read
          cases items : readArray fuel buf (start + 1 + 4) (start + 1 + 4 + alen) [] with
          | error e =>
              rw [items] at read
              cases read
          | ok found =>
              have ended := array _ _ _ _ _ items
              rw [items] at read
              cases read
              omega
      · intro offset limit val read stop entries
        rw [readTable] at entries
        split at entries
        · obtain ⟨keylen, _, entries⟩ := except_bind_eq_ok.mp entries
          obtain ⟨key, _, entries⟩ := except_bind_eq_ok.mp entries
          obtain ⟨⟨v, next⟩, one, entries⟩ := except_bind_eq_ok.mp entries
          have first := item _ _ _ one
          have later := table _ _ _ _ _ entries
          omega
        · cases entries
          exact le_rfl
      · intro offset limit val read stop items
        rw [readArray] at items
        split at items
        · obtain ⟨⟨v, next⟩, one, items⟩ := except_bind_eq_ok.mp items
          have first := item _ _ _ one
          have later := array _ _ _ _ _ items
          omega
        · cases items
          exact le_rfl

theorem readItem_inside {fuel : Nat} {x : Val × Nat} (read : readItem fuel buf start = .ok x) :
    start < buf.length := by
  cases fuel with
  | zero => cases read
  | succ fuel =>
      rw [readItem] at read
      by_contra outside
      rw [List.getElem?_eq_none (by omega)] at read
      cases read

theorem except_bind_eq_error {α β : Type} {x : Except PyError α} {f : α → Except PyError β}
    {e : PyError} : (x >>= f) = .error e ↔ x = .error e ∨ ∃ a, x = .ok a ∧ f a = .error e := by
  cases x with
  | error e' => exact ⟨fun same => .inl (by cases same; rfl), fun either => by
      rcases either with same | ⟨_, no, _⟩
      · cases same
        rfl
      · cases no⟩
  | ok a => exact ⟨fun same => .inr ⟨a, rfl, same⟩, fun either => by
      rcases either with no | ⟨_, same, failed⟩
      · cases no
      · cases same
        exact failed⟩

/-- Two steps for each byte that is left are enough. -/
theorem fuel_enough (buf : Bytes) (fuel : Nat) :
    (∀ start, 2 * (buf.length - start) + 1 ≤ fuel → readItem fuel buf start ≠ .error .outOfFuel) ∧
      (∀ offset limit val, 2 * (buf.length - offset) + 2 ≤ fuel →
        readTable fuel buf offset limit val ≠ .error .outOfFuel) ∧
      ∀ offset limit val, 2 * (buf.length - offset) + 2 ≤ fuel →
        readArray fuel buf offset limit val ≠ .error .outOfFuel := by
  induction fuel with
  | zero => exact ⟨fun _ no => (by omega), fun _ _ _ no => (by omega), fun _ _ _ no => (by omega)⟩
  | succ fuel ih =>
      obtain ⟨item, table, array⟩ := ih
      refine ⟨?_, ?_, ?_⟩
      · intro start enough failed
        rcases readItem_cases fuel buf start with settled | ⟨inside, ⟨tlen, same⟩ | ⟨alen, same⟩⟩
        · rcases settled with ⟨e, failed', other⟩ | ⟨v', stop', done, later⟩
          · cases failed'.symm.trans failed
            exact other rfl
          · cases done.symm.trans failed
        · rw [same] at failed
          cases entries : readTable fuel buf (start + 1 + 4) (start + 1 + 4 + tlen) [] with
          | error e =>
              rw [entries] at failed
              cases failed
              exact table _ _ _ (by omega) entries
          | ok found =>
              rw [entries] at failed
              cases failed
        · rw [same] at failed
          cases items : readArray fuel buf (start + 1 + 4) (start + 1 + 4 + alen) [] with
          | error e =>
              rw [items] at failed
              cases failed
              exact array _ _ _ (by omega) items
          | ok found =>
              rw [items] at failed
              cases failed
      · intro offset limit val enough failed
        rw [readTable] at failed
        split at failed
        · rcases except_bind_eq_error.mp failed with none | ⟨keylen, length, failed⟩
          · cases unpackFrom_error none
          have inside := unpackFrom_fits length
          rcases except_bind_eq_error.mp failed with none | ⟨key, _, failed⟩
          · cases decodeUtf8_error none
          rcases except_bind_eq_error.mp failed with none | ⟨⟨v, next⟩, one, failed⟩
          · exact item _ (by omega) none
          have first := (reads_forward buf fuel).1 _ _ _ one
          exact table _ _ _ (by omega) failed
        · cases failed
      · intro offset limit val enough failed
        rw [readArray] at failed
        split at failed
        · rcases except_bind_eq_error.mp failed with none | ⟨⟨v, next⟩, one, failed⟩
          · exact item _ (by omega) none
          have first := (reads_forward buf fuel).1 _ _ _ one
          have inside := readItem_inside one
          exact array _ _ _ (by omega) failed
        · cases failed

theorem loadOne_fuel (st : LoadState) (p : Char) : loadOne buf st p ≠ .error .outOfFuel := by
  intro failed
  obtain ⟨_, table, array⟩ := fuel_enough buf (itemFuel buf)
  have number : ∀ {width : Nat} {f : Nat → Except PyError (Val × LoadState)},
      (∀ n, f n ≠ .error .outOfFuel) → (unpackFrom width buf st.offset >>= f) ≠ .error .outOfFuel := by
    intro width f rest failed
    rcases except_bind_eq_error.mp failed with none | ⟨n, _, failed⟩
    · cases unpackFrom_error none
    · exact rest n failed
  have text : ∀ {b : Bytes} {f : Str → Except PyError (Val × LoadState)},
      (∀ s, f s ≠ .error .outOfFuel) → (bytesToStr b >>= f) ≠ .error .outOfFuel := by
    intro b f rest failed
    rcases except_bind_eq_error.mp failed with none | ⟨s, _, failed⟩
    · cases decodeUtf8_error none
    · exact rest s failed
  have itemFuel_le : ∀ offset, 2 * (buf.length - offset) + 2 ≤ itemFuel buf := by
    intro offset
    rw [itemFuel]
    omega
  unfold loadOne at failed
  dsimp only at failed
  split at failed
  · split at failed
    · split at failed
      · cases failed
      · cases failed
    · cases failed
  · exact number (fun _ no => (by cases no)) failed
  · exact number (fun _ no => (by cases no)) failed
  · exact number (fun _ no => (by cases no)) failed
  · exact number (fun _ no => (by cases no)) failed
  · exact number (fun _ no => (by cases no)) failed
  · exact number (fun _ => text fun _ no => (by cases no)) failed
  · exact number (fun _ => text fun _ no => (by cases no)) failed
  · refine number (fun n failed => ?_) failed
    rcases except_bind_eq_error.mp failed with none | ⟨_, _, no⟩
    · exact table _ _ _ (itemFuel_le _) none
    · cases no
  · refine number (fun n failed => ?_) failed
    rcases except_bind_eq_error.mp failed with none | ⟨_, _, no⟩
    · exact array _ _ _ (itemFuel_le _) none
    · cases no
  · refine number (fun n failed => ?_) failed
    rcases except_bind_eq_error.mp failed with none | ⟨_, _, no⟩
    · cases utcfromtimestamp_error none
    · cases no
  · cases failed

theorem loadAll_cons {p : Char} {format : List Char} {st : LoadState} {values : List Val}
    {stop : Nat} (h : loadAll buf (p :: format) st = .ok (values, stop)) :
    ∃ v st' rest, loadOne buf st p = .ok (v, st') ∧ loadAll buf format st' = .ok (rest, stop) ∧
      values = v :: rest := by
  obtain ⟨⟨v, st'⟩, one, h⟩ := except_bind_eq_ok.mp h
  obtain ⟨⟨rest, _⟩, others, h⟩ := except_bind_eq_ok.mp h
  cases h
  exact ⟨v, st', rest, one, others, rfl⟩

theorem loads_fuel (format : List Char) (buf : Bytes) (offset : Nat) :
    loads format buf offset ≠ .error .outOfFuel := by
  have all : ∀ st, loadAll buf format st ≠ .error .outOfFuel := by
    induction format with
    | nil =>
        intro st failed
        cases failed
    | cons p format ih =>
        intro st failed
        rcases except_bind_eq_error.mp failed with none | ⟨⟨v, st'⟩, _, failed⟩
        · exact loadOne_fuel st p none
        rcases except_bind_eq_error.mp failed with none | ⟨_, _, no⟩
        · exact ih st' none
        · cases no
  exact all _

end

/-! ## Complete encodings -/

/-- No text, table or array. -/
def Val.isLeaf : Val → Bool
  | .str _ | .dict _ | .list _ => false
  | _ => true

mutual

/-- An item with every length in it kept, from its tag up to `stop`. -/
inductive ItemAt (buf : Bytes) : Nat → Val → Nat → Prop
  | text {start n : Nat} {s : Str} (tag : buf[start]? = some 83)
      (length : unpackFrom 4 buf (start + 1) = .ok n) (inside : start + 5 + n ≤ buf.length)
      (text : bytesToStr (slice buf (start + 5) (start + 5 + n)) = .ok s) :
      ItemAt buf start (.str s) (start + 5 + n)
  | table {start n : Nat} {entries : List (Str × Val)} (tag : buf[start]? = some 70)
      (length : unpackFrom 4 buf (start + 1) = .ok n) (inside : start + 5 + n ≤ buf.length)
      (whole : EntriesAt buf (start + 5) [] entries (start + 5 + n)) :
      ItemAt buf start (.dict entries) (start + 5 + n)
  | array {start n : Nat} {items : List Val} (tag : buf[start]? = some 65)
      (length : unpackFrom 4 buf (start + 1) = .ok n) (inside : start + 5 + n ≤ buf.length)
      (whole : ItemsAt buf (start + 5) [] items (start + 5 + n)) :
      ItemAt buf start (.list items) (start + 5 + n)
  | leaf {start stop : Nat} {v : Val} (leaf : v.isLeaf = true)
      (read : readItem 1 buf start = .ok (v, stop)) (inside : stop ≤ buf.length) :
      ItemAt buf start v stop

/-- Entries one after the other up to `stop`, stored over those before them. -/
inductive EntriesAt (buf : Bytes) : Nat → List (Str × Val) → List (Str × Val) → Nat → Prop
  | done {stop : Nat} {entries : List (Str × Val)} : EntriesAt buf stop entries entries stop
  | entry {start keylen mid stop : Nat} {key : Str} {v : Val} {val entries : List (Str × Val)}
      (length : unpackFrom 1 buf start = .ok keylen) (inside : start + 1 + keylen ≤ buf.length)
      (text : bytesToStr (slice buf (start + 1) (start + 1 + keylen)) = .ok key)
      (item : ItemAt buf (start + 1 + keylen) v mid)
      (rest : EntriesAt buf mid (assocSet val key v) entries stop) :
      EntriesAt buf start val entries stop

inductive ItemsAt (buf : Bytes) : Nat → List Val → List Val → Nat → Prop
  | done {stop : Nat} {items : List Val} : ItemsAt buf stop items items stop
  | item {start mid stop : Nat} {v : Val} {val items : List Val} (item : ItemAt buf start v mid)
      (rest : ItemsAt buf mid (val ++ [v]) items stop) : ItemsAt buf start val items stop

end

example : ItemAt [70, 0, 0, 0, 2, 0, 86] 0 (.dict [([], .none)]) 7 :=
  @ItemAt.table _ 0 2 _ rfl rfl (by decide)
    (@EntriesAt.entry _ 5 0 7 7 [] .none [] _ rfl (by decide) rfl
      (@ItemAt.leaf _ 6 7 _ rfl rfl (by decide)) .done)

/-- A letter's value with every length in it kept. -/
inductive LetterAt (buf : Bytes) (offset : Nat) : Char → Val → Nat → Prop
  | text {p : Char} {width n : Nat} {s : Str} (letter : (p = 's' ∧ width = 1) ∨ (p = 'S' ∧ width = 4))
      (length : unpackFrom width buf offset = .ok n) (inside : offset + width + n ≤ buf.length)
      (text : bytesToStr (slice buf (offset + width) (offset + width + n)) = .ok s) :
      LetterAt buf offset p (.str s) (offset + width + n)
  | table {n : Nat} {entries : List (Str × Val)} (length : unpackFrom 4 buf offset = .ok n)
      (inside : offset + 4 + n ≤ buf.length)
      (whole : EntriesAt buf (offset + 4) [] entries (offset + 4 + n)) :
      LetterAt buf offset 'F' (.dict entries) (offset + 4 + n)
  | array {n : Nat} {items : List Val} (length : unpackFrom 4 buf offset = .ok n)
      (inside : offset + 4 + n ≤ buf.length)
      (whole : ItemsAt buf (offset + 4) [] items (offset + 4 + n)) :
      LetterAt buf offset 'A' (.list items) (offset + 4 + n)
  | leaf {p : Char} {v : Val} {stop : Nat} (leaf : v.isLeaf = true) (inside : stop ≤ buf.length) :
      LetterAt buf offset p v stop

/-- The letters are read one after the other, each from a complete encoding. -/
inductive WholeFrom (buf : Bytes) : LoadState → List Char → List Val → Nat → Prop
  | nil {st : LoadState} : WholeFrom buf st [] [] st.offset
  | cons {st st' : LoadState} {p : Char} {format : List Char} {v : Val} {values : List Val}
      {stop : Nat} (one : loadOne buf st p = .ok (v, st'))
      (whole : LetterAt buf st.offset p v st'.offset) (rest : WholeFrom buf st' format values stop) :
      WholeFrom buf st (p :: format) (v :: values) stop

/-- Whatever is returned was read from a complete encoding; everything else raises. -/
structure AcceptsWhole (format : List Char) : Prop where
  raises : ∀ buf offset, loads format buf offset ≠ .error .outOfFuel
  whole : ∀ buf offset, offset ≤ buf.length → ∀ values stop,
    loads format buf offset = .ok (values, stop) →
      stop ≤ buf.length ∧ WholeFrom buf ⟨0, 0, offset⟩ format values stop

/-- The letters `loads` knows. -/
def loadLetters : List Char := ['b', 'o', 'B', 'l', 'L', 'f', 's', 'S', 'F', 'A', 'T']

section
variable {buf : Bytes} {st st' : LoadState} {p : Char} {v : Val}

theorem loadOne_known (read : loadOne buf st p = .ok (v, st')) : p ∈ loadLetters := by
  unfold loadOne at read
  dsimp only at read
  split at read
  any_goals decide
  cases read

theorem loadAll_known {format : List Char} {values : List Val} {stop : Nat}
    (loaded : loadAll buf format st = .ok (values, stop)) : ∀ p ∈ format, p ∈ loadLetters := by
  induction format generalizing st values with
  | nil => exact fun _ none => (by cases none)
  | cons p format ih =>
      obtain ⟨⟨v, st'⟩, one, more⟩ := except_bind_eq_ok.mp loaded
      obtain ⟨⟨values, offset⟩, rest, ended⟩ := except_bind_eq_ok.mp more
      cases ended
      exact List.forall_mem_cons.mpr ⟨loadOne_known one, ih rest⟩

/-- The letters whose values are read at a fixed width or not at all. -/
def plainLetters : List Char := ['b', 'o', 'B', 'l', 'L', 'f', 'T']

theorem loadOne_plain (plain : p ∈ plainLetters) (read : loadOne buf st p = .ok (v, st'))
    (inside : st.offset ≤ buf.length) : v.isLeaf = true ∧ st'.offset ≤ buf.length := by
  simp only [plainLetters, List.mem_cons, List.not_mem_nil, or_false] at plain
  rcases plain with rfl | rfl | rfl | rfl | rfl | rfl | rfl
  · rw [loadOne] at read
    split at read
    · split at read
      · next byte =>
          cases read
          exact ⟨rfl, (List.getElem?_eq_some_iff.mp byte).1⟩
      · cases read
    · cases read
      exact ⟨rfl, inside⟩
  all_goals obtain ⟨n, field, read⟩ := except_bind_eq_ok.mp read
  · cases read
    exact ⟨rfl, unpackFrom_fits field⟩
  · cases read
    exact ⟨rfl, unpackFrom_fits field⟩
  · cases read
    exact ⟨rfl, unpackFrom_fits field⟩
  · cases read
    exact ⟨rfl, unpackFrom_fits field⟩
  · cases read
    exact ⟨rfl, unpackFrom_fits field⟩
  · obtain ⟨date, known, read⟩ := except_bind_eq_ok.mp read
    cases read
    unfold utcfromtimestamp at known
    split at known
    · cases known
      exact ⟨rfl, unpackFrom_fits field⟩
    · cases known

/-- A text is followed by the offset its length announces. -/
theorem loadOne_text {width : Nat} (letter : (p = 's' ∧ width = 1) ∨ (p = 'S' ∧ width = 4))
    (read : loadOne buf st p = .ok (v, st')) : ∃ n s, v = .str s ∧
      unpackFrom width buf st.offset = .ok n ∧
      bytesToStr (slice buf (st.offset + width) (st.offset + width + n)) = .ok s ∧
      st' = ⟨0, 0, st.offset + width + n⟩ := by
  rcases letter with ⟨rfl, rfl⟩ | ⟨rfl, rfl⟩
  · obtain ⟨n, length, read⟩ := except_bind_eq_ok.mp read
    obtain ⟨s, text, read⟩ := except_bind_eq_ok.mp read
    cases read
    exact ⟨n, s, rfl, length, text, rfl⟩
  · obtain ⟨n, length, read⟩ := except_bind_eq_ok.mp read
    obtain ⟨s, text, read⟩ := except_bind_eq_ok.mp read
    cases read
    exact ⟨n, s, rfl, length, text, rfl⟩

/-- Nothing is read past the end. -/
theorem loadOne_beyond (idle : st.bitcount = 0) (beyond : buf.length < st.offset) :
    loadOne buf st p ≠ .ok (v, st') := by
  intro read
  have field : ∀ {width : Nat} {f : Nat → Except PyError (Val × LoadState)} {x : Val × LoadState},
      (unpackFrom width buf st.offset >>= f) ≠ .ok x := by
    intro width f x done
    obtain ⟨n, length, _⟩ := except_bind_eq_ok.mp done
    have inside := unpackFrom_fits length
    omega
  unfold loadOne at read
  dsimp only at read
  split at read
  · rw [if_pos idle, List.getElem?_eq_none (by omega)] at read
    cases read
  any_goals exact field read
  cases read

/-- Without tables and arrays only a text at the very end can be cut off. -/
theorem whole_of_plain {format : List Char} (flat : ∀ p ∈ format, p ≠ 'F' ∧ p ≠ 'A')
    (last : ∀ p, format.getLast? = some p → p ≠ 's' ∧ p ≠ 'S') (inside : st.offset ≤ buf.length)
    {values : List Val} {stop : Nat} (loaded : loadAll buf format st = .ok (values, stop)) :
    stop ≤ buf.length ∧ WholeFrom buf st format values stop := by
  induction format generalizing st values with
  | nil =>
      cases loaded
      exact ⟨inside, .nil⟩
  | cons p format ih =>
      obtain ⟨⟨v, st'⟩, one, more⟩ := except_bind_eq_ok.mp loaded
      obtain ⟨⟨values, offset⟩, rest, ended⟩ := except_bind_eq_ok.mp more
      cases ended
      obtain ⟨here, later⟩ := List.forall_mem_cons.mp flat
      have last' : ∀ q, format.getLast? = some q → q ≠ 's' ∧ q ≠ 'S' := by
        intro q final
        refine last q ?_
        cases format with
        | nil => cases final
        | cons r format => rwa [List.getLast?_cons_cons]
      have known := loadOne_known one
      by_cases string : p = 's' ∨ p = 'S'
      · obtain ⟨width, letter⟩ : ∃ width, (p = 's' ∧ width = 1) ∨ (p = 'S' ∧ width = 4) := by
          rcases string with rfl | rfl
          · exact ⟨1, .inl ⟨rfl, rfl⟩⟩
          · exact ⟨4, .inr ⟨rfl, rfl⟩⟩
        obtain ⟨n, s, rfl, length, text, rfl⟩ := loadOne_text letter one
        have fits : st.offset + width + n ≤ buf.length := by
          by_contra beyond
          cases format with
          | nil =>
              rcases string with rfl | rfl
              · exact (last 's' rfl).1 rfl
              · exact (last 'S' rfl).2 rfl
          | cons q format =>
              obtain ⟨⟨w, st'⟩, next, _⟩ := except_bind_eq_ok.mp rest
              exact loadOne_beyond rfl (by simpa using beyond) next
        obtain ⟨bound, whole⟩ := ih later last' fits rest
        exact ⟨bound, .cons one (.text letter length fits text) whole⟩
      · have plain : p ∈ plainLetters := by
          simp only [loadLetters, plainLetters, List.mem_cons, List.not_mem_nil, or_false] at known ⊢
          tauto
        obtain ⟨leaf, fits⟩ := loadOne_plain plain one inside
        obtain ⟨bound, whole⟩ := ih later last' fits rest
        exact ⟨bound, .cons one (.leaf leaf fits) whole⟩

end

/-! ## Incomplete encodings -/

def zeros (n : Nat) : Bytes := List.replicate n 0

theorem length_zeros (n : Nat) : (zeros n).length = n := List.length_replicate

theorem beBytes_zero (width : Nat) : beBytes width 0 = zeros width := by
  induction width with
  | zero => rfl
  | succ width ih =>
      rw [beBytes, ih, zeros, zeros, List.replicate_succ']
      rfl

/-- The letters are read up to a state. -/
inductive Passes (buf : Bytes) : List Char → LoadState → LoadState → Prop
  | nil {st : LoadState} : Passes buf [] st st
  | cons {st mid st' : LoadState} {p : Char} {format : List Char} {v : Val}
      (one : loadOne buf st p = .ok (v, mid)) (rest : Passes buf format mid st') :
      Passes buf (p :: format) st st'

section
variable {buf : Bytes} {st st' : LoadState} {format later : List Char} {values : List Val}
  {stop : Nat}

theorem Passes.loadAll (passes : Passes buf format st st')
    (loaded : MockAmqp.loadAll buf later st' = .ok (values, stop)) :
    ∃ more, MockAmqp.loadAll buf (format ++ later) st = .ok (more, stop) := by
  induction passes with
  | nil => exact ⟨values, loaded⟩
  | cons one _ ih =>
      obtain ⟨more, rest⟩ := ih loaded
      exact ⟨_, except_bind_eq_ok.mpr ⟨_, one, except_bind_eq_ok.mpr ⟨_, rest, rfl⟩⟩⟩

theorem Passes.whole (passes : Passes buf format st st')
    (whole : WholeFrom buf st (format ++ later) values stop) :
    ∃ more, WholeFrom buf st' later more stop := by
  induction passes generalizing values with
  | nil => exact ⟨values, whole⟩
  | cons one _ ih =>
      cases whole with
      | cons one' _ rest =>
          cases one.symm.trans one'
          exact ih rest

theorem zeros_field {width offset : Nat} (placed : Placed buf offset (zeros (width + 1))) :
    unpackFrom (width + 1) buf offset = .ok 0 := by
  rw [← beBytes_zero] at placed
  exact unpackFrom_beBytes placed (Nat.pow_pos (by decide))

theorem slice_none (start : Nat) : slice buf start (start + 0) = [] := by
  rw [slice, Nat.add_sub_cancel_left, List.take_zero]

theorem readTable_none (offset : Nat) :
    readTable (itemFuel buf) buf offset (offset + 0) [] = .ok ([], offset) := by
  rw [itemFuel, readTable, if_neg (by omega)]

theorem readArray_none (offset : Nat) :
    readArray (itemFuel buf) buf offset (offset + 0) [] = .ok ([], offset) := by
  rw [itemFuel, readArray, if_neg (by omega)]

/-- Every letter can be read from zeros. -/
theorem zeros_read {p : Char} (known : p ∈ loadLetters) (bitcount : Nat) :
    ∃ k bitcount', ∀ buf st, st.bitcount = bitcount → Placed buf st.offset (zeros k) →
      ∃ v st', loadOne buf st p = .ok (v, st') ∧ st'.offset = st.offset + k ∧
        st'.bitcount = bitcount' := by
  simp only [loadLetters, List.mem_cons, List.not_mem_nil, or_false] at known
  rcases known with rfl | rfl | rfl | rfl | rfl | rfl | rfl | rfl | rfl | rfl | rfl
  · by_cases idle : bitcount = 0
    · refine ⟨1, 7, fun buf st count placed => ⟨.bool false, ⟨7, 0, st.offset + 1⟩, ?_, rfl, rfl⟩⟩
      have byte : buf[st.offset]? = some 0 := placed.getElem?_eq
      rw [loadOne, if_pos (count.trans idle), byte]
      rfl
    · refine ⟨0, 7, fun buf st count _ =>
        ⟨.bool (decide (st.bits % 2 = 1)), ⟨7, st.bits / 2, st.offset⟩, ?_, rfl, rfl⟩⟩
      rw [loadOne, if_neg (count ▸ idle)]
      rfl
  · exact ⟨1, 0, fun buf st _ placed =>
      ⟨_, _, except_bind_eq_ok.mpr ⟨0, zeros_field placed, rfl⟩, rfl, rfl⟩⟩
  · exact ⟨2, 0, fun buf st _ placed =>
      ⟨_, _, except_bind_eq_ok.mpr ⟨0, zeros_field placed, rfl⟩, rfl, rfl⟩⟩
  · exact ⟨4, 0, fun buf st _ placed =>
      ⟨_, _, except_bind_eq_ok.mpr ⟨0, zeros_field placed, rfl⟩, rfl, rfl⟩⟩
  · exact ⟨8, 0, fun buf st _ placed =>
      ⟨_, _, except_bind_eq_ok.mpr ⟨0, zeros_field placed, rfl⟩, rfl, rfl⟩⟩
  · exact ⟨4, 0, fun buf st _ placed =>
      ⟨_, _, except_bind_eq_ok.mpr ⟨0, zeros_field placed, rfl⟩, rfl, rfl⟩⟩
  · refine ⟨1, 0, fun buf st _ placed => ⟨.str [], _, except_bind_eq_ok.mpr ⟨0, zeros_field placed,
      except_bind_eq_ok.mpr ⟨[], ?_, rfl⟩⟩, rfl, rfl⟩⟩
    rw [slice_none]
    rfl
  · refine ⟨4, 0, fun buf st _ placed => ⟨.str [], _, except_bind_eq_ok.mpr ⟨0, zeros_field placed,
      except_bind_eq_ok.mpr ⟨[], ?_, rfl⟩⟩, rfl, rfl⟩⟩
    rw [slice_none]
    rfl
  · exact ⟨4, 0, fun buf st _ placed => ⟨_, _, except_bind_eq_ok.mpr ⟨0, zeros_field placed,
      except_bind_eq_ok.mpr ⟨_, readTable_none _, rfl⟩⟩, rfl, rfl⟩⟩
  · exact ⟨4, 0, fun buf st _ placed => ⟨_, _, except_bind_eq_ok.mpr ⟨0, zeros_field placed,
      except_bind_eq_ok.mpr ⟨_, readArray_none _, rfl⟩⟩, rfl, rfl⟩⟩
  · exact ⟨8, 0, fun buf st _ placed => ⟨_, _, except_bind_eq_ok.mpr ⟨0, zeros_field placed,
      except_bind_eq_ok.mpr ⟨.datetime 0, rfl, rfl⟩⟩, rfl, rfl⟩⟩

theorem zeros_passed (known : ∀ p ∈ format, p ∈ loadLetters) (bitcount : Nat) :
    ∃ k, ∀ buf st, st.bitcount = bitcount → Placed buf st.offset (zeros k) →
      ∃ st', Passes buf format st st' ∧ st'.offset = st.offset + k := by
  induction format generalizing bitcount with
  | nil => exact ⟨0, fun buf st _ _ => ⟨st, .nil, rfl⟩⟩
  | cons p format ih =>
      obtain ⟨first, rest⟩ := List.forall_mem_cons.mp known
      obtain ⟨k, bitcount', read⟩ := zeros_read first bitcount
      obtain ⟨more, passed⟩ := ih rest bitcount'
      refine ⟨k + more, fun buf st count placed => ?_⟩
      have split : zeros (k + more) = zeros k ++ zeros more := List.replicate_add ..
      rw [split] at placed
      obtain ⟨v, mid, one, offset, count'⟩ := read buf st count placed.left
      have next := placed.right
      rw [length_zeros, ← offset] at next
      obtain ⟨st', passes, offset'⟩ := passed buf mid count' next
      exact ⟨st', .cons one passes, by omega⟩

/-- A text that announces a byte more than there is. -/
theorem cut_text {before : List Char} {p : Char} {width : Nat}
    (letter : (p = 's' ∧ width = 1) ∨ (p = 'S' ∧ width = 4))
    (known : ∀ q ∈ before, q ∈ loadLetters) : ¬ AcceptsWhole (before ++ [p]) := by
  intro accepts
  obtain ⟨k, passed⟩ := zeros_passed known 0
  have placed : Placed (zeros k ++ beBytes width 1) 0 (zeros k) := List.prefix_append _ _
  obtain ⟨st, passes, offset⟩ := passed _ ⟨0, 0, 0⟩ rfl placed
  rw [Nat.zero_add] at offset
  have size : (zeros k ++ beBytes width 1).length = k + width := by
    rw [List.length_append, length_beBytes, length_zeros]
  have there : Placed (zeros k ++ beBytes width 1) st.offset (beBytes width 1) := by
    have after := Placed.between (zeros k) (beBytes width 1) []
    rw [List.append_nil, length_zeros] at after
    rw [offset]
    exact after
  have nothing : slice (zeros k ++ beBytes width 1) (st.offset + width) (st.offset + width + 1) =
      [] := by
    rw [slice, List.drop_eq_nil_of_le (by rw [size, offset]), List.take_nil]
  have one : loadOne (zeros k ++ beBytes width 1) st p =
      .ok (.str [], ⟨0, 0, st.offset + width + 1⟩) := by
    rcases letter with ⟨rfl, rfl⟩ | ⟨rfl, rfl⟩
    · exact except_bind_eq_ok.mpr ⟨1, unpackFrom_beBytes there (by decide),
        except_bind_eq_ok.mpr ⟨[], by rw [nothing]; rfl, rfl⟩⟩
    · exact except_bind_eq_ok.mpr ⟨1, unpackFrom_beBytes there (by decide),
        except_bind_eq_ok.mpr ⟨[], by rw [nothing]; rfl, rfl⟩⟩
  have last : loadAll (zeros k ++ beBytes width 1) [p] st =
      .ok ([.str []], st.offset + width + 1) :=
    except_bind_eq_ok.mpr ⟨_, one, rfl⟩
  obtain ⟨more, loaded⟩ := passes.loadAll last
  have bound := (accepts.whole _ 0 (Nat.zero_le _) _ _ loaded).1
  omega

/-- A table or an array of one announced byte, whose only item ends one byte behind it. -/
def overrunning (p : Char) : Bytes :=
  if p = 'F' then [0, 0, 0, 1, 0, 86] else [0, 0, 0, 1, 116, 0]

theorem overrunning_read {p : Char} (nested : p = 'F' ∨ p = 'A')
    (placed : Placed buf st.offset (overrunning p)) :
    unpackFrom 4 buf st.offset = .ok 1 ∧ ∃ v, v.isLeaf = false ∧
      loadOne buf st p = .ok (v, ⟨0, 0, st.offset + 6⟩) := by
  rcases nested with rfl | rfl
  · have announced : unpackFrom 4 buf st.offset = .ok 1 :=
      unpackFrom_beBytes (placed.left (a := [0, 0, 0, 1])) (by decide)
    have keylen : unpackFrom 1 buf (st.offset + 4) = .ok 0 :=
      unpackFrom_beBytes (placed.right (a := [0, 0, 0, 1])).left (by decide)
    have tag : buf[st.offset + 5]? = some 86 :=
      (placed.right (a := [0, 0, 0, 1, 0])).getElem?_eq
    have item : readItem (2 * buf.length + 2) buf (st.offset + 4 + 1 + 0) =
        .ok (.none, st.offset + 6) := by
      rw [readItem, tag]
      rfl
    have table : readTable (itemFuel buf) buf (st.offset + 4) (st.offset + 4 + 1) [] =
        .ok ([([], .none)], st.offset + 6) := by
      rw [itemFuel, readTable, if_pos (by omega)]
      refine except_bind_eq_ok.mpr ⟨0, keylen, except_bind_eq_ok.mpr ⟨[], ?_,
        except_bind_eq_ok.mpr ⟨_, item, ?_⟩⟩⟩
      · rw [slice_none]
        rfl
      · dsimp only
        rw [readTable, if_neg (by omega)]
        rfl
    exact ⟨announced, _, rfl, except_bind_eq_ok.mpr ⟨1, announced,
      except_bind_eq_ok.mpr ⟨_, table, rfl⟩⟩⟩
  · have announced : unpackFrom 4 buf st.offset = .ok 1 :=
      unpackFrom_beBytes (placed.left (a := [0, 0, 0, 1])) (by decide)
    have tag : buf[st.offset + 4]? = some 116 :=
      (placed.right (a := [0, 0, 0, 1])).getElem?_eq
    have flag : unpackFrom 1 buf (st.offset + 4 + 1) = .ok 0 :=
      unpackFrom_beBytes (placed.right (a := [0, 0, 0, 1, 116])) (by decide)
    have item : readItem (2 * buf.length + 2) buf (st.offset + 4) =
        .ok (.bool false, st.offset + 6) := by
      rw [readItem, tag]
      exact except_bind_eq_ok.mpr ⟨116, rfl, except_bind_eq_ok.mpr ⟨0, flag, rfl⟩⟩
    have array : readArray (itemFuel buf) buf (st.offset + 4) (st.offset + 4 + 1) [] =
        .ok ([.bool false], st.offset + 6) := by
      rw [itemFuel, readArray, if_pos (by omega)]
      refine except_bind_eq_ok.mpr ⟨_, item, ?_⟩
      dsimp only
      rw [readArray, if_neg (by omega)]
      rfl
    exact ⟨announced, _, rfl, except_bind_eq_ok.mpr ⟨1, announced,
      except_bind_eq_ok.mpr ⟨_, array, rfl⟩⟩⟩

/-- A table or an array that goes on past its limit. -/
theorem overrun {before after : List Char} {p : Char} (nested : p = 'F' ∨ p = 'A')
    (known : ∀ q ∈ before, q ∈ loadLetters) (known' : ∀ q ∈ after, q ∈ loadLetters) :
    ¬ AcceptsWhole (before ++ p :: after) := by
  intro accepts
  obtain ⟨k, passed⟩ := zeros_passed known 0
  obtain ⟨k', passed'⟩ := zeros_passed known' 0
  have size : (overrunning p).length = 6 := by
    rcases nested with rfl | rfl
    · rfl
    · rfl
  have start : Placed (zeros k ++ overrunning p ++ zeros k') 0 (zeros k) := by
    rw [List.append_assoc]
    exact List.prefix_append _ _
  obtain ⟨st, passes, offset⟩ := passed _ ⟨0, 0, 0⟩ rfl start
  rw [Nat.zero_add] at offset
  have middle : Placed (zeros k ++ overrunning p ++ zeros k') st.offset (overrunning p) := by
    have there := Placed.between (zeros k) (overrunning p) (zeros k')
    rw [length_zeros] at there
    rw [offset]
    exact there
  have last : Placed (zeros k ++ overrunning p ++ zeros k') (st.offset + 6) (zeros k') := by
    have there := Placed.between (zeros k ++ overrunning p) (zeros k') []
    rw [List.append_nil, List.length_append, length_zeros, size] at there
    rw [offset]
    exact there
  obtain ⟨announced, v, container, one⟩ := overrunning_read nested middle
  obtain ⟨st', passes', offset'⟩ := passed' _ ⟨0, 0, st.offset + 6⟩ rfl last
  obtain ⟨values, rest⟩ := passes'.loadAll (show loadAll _ [] st' = .ok ([], st'.offset) from rfl)
  rw [List.append_nil] at rest
  obtain ⟨more, loaded⟩ := passes.loadAll
    (show loadAll _ (p :: after) st = .ok (v :: values, _) from
      except_bind_eq_ok.mpr ⟨_, one, except_bind_eq_ok.mpr ⟨_, rest, rfl⟩⟩)
  have whole := (accepts.whole _ 0 (Nat.zero_le _) _ _ loaded).2
  obtain ⟨_, here⟩ := passes.whole whole
  cases here with
  | cons one' letter _ =>
      cases one.symm.trans one'
      change LetterAt _ _ _ _ (st.offset + 6) at letter
      generalize stops : st.offset + 6 = stop at letter
      cases letter with
      | text letter =>
          rcases nested with rfl | rfl
          · simp at letter
          · simp at letter
      | table length =>
          cases announced.symm.trans length
          omega
      | array length =>
          cases announced.symm.trans length
          omega
      | leaf leaf => simp [container] at leaf

end

/-- The formats that are read from complete encodings only: those with a letter that always
raises, and those without tables and arrays that do not end in a text. -/
theorem acceptsWhole_iff (format : List Char) :
    AcceptsWhole format ↔ (∃ p ∈ format, p ∉ loadLetters) ∨
      ((∀ p ∈ format, p ≠ 'F' ∧ p ≠ 'A') ∧
        ∀ p, format.getLast? = some p → p ≠ 's' ∧ p ≠ 'S') := by
  constructor
  · intro accepts
    by_contra neither
    rw [not_or] at neither
    obtain ⟨all, other⟩ := neither
    have known : ∀ p ∈ format, p ∈ loadLetters := by
      intro p member
      by_contra unknown
      exact all ⟨p, member, unknown⟩
    refine other ⟨fun p member => ?_, fun p final => ?_⟩
    · by_contra some'
      obtain ⟨before, later, rfl⟩ := List.append_of_mem member
      refine overrun (by tauto) (fun q hq => known q ?_) (fun q hq => known q ?_) accepts
      · exact List.mem_append_left _ hq
      · exact List.mem_append_right _ (List.mem_cons_of_mem _ hq)
    · by_contra some'
      obtain ⟨before, rfl⟩ := List.getLast?_eq_some_iff.mp final
      obtain ⟨width, letter⟩ : ∃ width, (p = 's' ∧ width = 1) ∨ (p = 'S' ∧ width = 4) := by
        by_cases short : p = 's'
        · exact ⟨1, .inl ⟨short, rfl⟩⟩
        · exact ⟨4, .inr ⟨by tauto, rfl⟩⟩
      exact cut_text letter (fun q hq => known q (List.mem_append_left _ hq)) accepts
  · intro either
    refine ⟨loads_fuel format, fun buf offset inside values stop loaded => ?_⟩
    rcases either with ⟨p, member, unknown⟩ | ⟨flat, last⟩
    · exact absurd (loadAll_known loaded p member) unknown
    · exact whole_of_plain flat last inside loaded

/-- A short text of five bytes of which two are there. -/
theorem cut_text_accepted : ¬ AcceptsWhole ['s'] := by
  intro accepts
  have bound := (accepts.whole [5, 97, 98] 0 (by decide) [.str [97, 98]] 6 rfl).1
  revert bound
  decide

end MockAmqp
