import MockAmqp.Acceptance

/-!
# Where the items of a table are read

Every item takes its tag byte from inside the buffer and behind the tags read before it, whatever
lengths the buffer declares.
-/

namespace MockAmqp
open Exec

/-! ## Increasing positions -/

/-- The positions increase and lie between the bounds. -/
def Ascends (low high : Nat) (positions : List Nat) : Prop :=
  positions.Pairwise (· < ·) ∧ ∀ p ∈ positions, low ≤ p ∧ p < high

section
variable {low middle high : Nat} {positions later : List Nat}

theorem ascends_nil (low high : Nat) : Ascends low high [] :=
  ⟨List.Pairwise.nil, fun _ no => absurd no List.not_mem_nil⟩

theorem Ascends.mono (h : Ascends middle high positions) (below : low ≤ middle) :
    Ascends low high positions :=
  ⟨h.1, fun p hp => ⟨below.trans (h.2 p hp).1, (h.2 p hp).2⟩⟩

theorem Ascends.cons {p : Nat} (above : low ≤ p) (inside : p < high)
    (h : Ascends (p + 1) high positions) : Ascends low high (p :: positions) := by
  constructor
  · exact List.pairwise_cons.mpr ⟨fun q hq => (h.2 q hq).1, h.1⟩
  · intro q hq
    rcases List.mem_cons.mp hq with rfl | later
    · exact ⟨above, inside⟩
    · have bound := h.2 q later
      exact ⟨by omega, bound.2⟩

theorem Ascends.append (h : Ascends low high positions) (before : ∀ p ∈ positions, p < middle)
    (below : low ≤ middle) (k : Ascends middle high later) :
    Ascends low high (positions ++ later) := by
  constructor
  · refine List.pairwise_append.mpr ⟨h.1, k.1, fun p hp q hq => ?_⟩
    exact (before p hp).trans_le (k.2 q hq).1
  · intro p hp
    rcases List.mem_append.mp hp with early | late
    · exact h.2 p early
    · exact (k.mono below).2 p late

/-- There are no more positions than there is room for. -/
theorem Ascends.length_le (h : Ascends low high positions) : positions.length ≤ high - low := by
  induction positions generalizing low with
  | nil => exact Nat.zero_le _
  | cons p rest ih =>
      obtain ⟨first, increasing⟩ := List.pairwise_cons.mp h.1
      have bound := h.2 p List.mem_cons_self
      have others : Ascends (p + 1) high rest :=
        ⟨increasing, fun q hq => ⟨first q hq, (h.2 q (List.mem_cons_of_mem p hq)).2⟩⟩
      have room := ih others
      rw [List.length_cons]
      omega

end

/-! ## Tags -/

mutual

/-- The positions of the tag bytes that `_read_item` reads, those of nested items included. -/
def itemTags : Nat → Bytes → Nat → List Nat
  | 0, _, _ => []
  | fuel + 1, buf, start =>
      match buf[start]? with
      | none => []
      | some tag =>
          start :: match Char.ofNat tag.toNat, unpackFrom 4 buf (start + 1) with
            | 'F', .ok tlen => tableTags fuel buf (start + 1 + 4) (start + 1 + 4 + tlen)
            | 'A', .ok alen => arrayTags fuel buf (start + 1 + 4) (start + 1 + 4 + alen)
            | _, _ => []
termination_by structural n => n

/-- The tags read in the loop over a table. -/
def tableTags : Nat → Bytes → Nat → Nat → List Nat
  | 0, _, _, _ => []
  | fuel + 1, buf, offset, limit =>
      if offset < limit then
        match unpackFrom 1 buf offset with
        | .error _ => []
        | .ok keylen =>
            match bytesToStr (slice buf (offset + 1) (offset + 1 + keylen)) with
            | .error _ => []
            | .ok _ => itemTags fuel buf (offset + 1 + keylen) ++
                match readItem fuel buf (offset + 1 + keylen) with
                | .error _ => []
                | .ok (_, offset) => tableTags fuel buf offset limit
      else []
termination_by structural n => n

/-- The tags read in the loop over an array. -/
def arrayTags : Nat → Bytes → Nat → Nat → List Nat
  | 0, _, _, _ => []
  | fuel + 1, buf, offset, limit =>
      if offset < limit then
        itemTags fuel buf offset ++
          match readItem fuel buf offset with
          | .error _ => []
          | .ok (_, offset) => arrayTags fuel buf offset limit
      else []
termination_by structural n => n

end

/-- The tags read for one letter of the format. -/
def letterTags (buf : Bytes) (st : LoadState) (p : Char) : List Nat :=
  match p, unpackFrom 4 buf st.offset with
  | 'F', .ok tlen => tableTags (itemFuel buf) buf (st.offset + 4) (st.offset + 4 + tlen)
  | 'A', .ok alen => arrayTags (itemFuel buf) buf (st.offset + 4) (st.offset + 4 + alen)
  | _, _ => []

def formatTags (buf : Bytes) : List Char → LoadState → List Nat
  | [], _ => []
  | p :: format, st => letterTags buf st p ++
      match loadOne buf st p with
      | .error _ => []
      | .ok (_, st) => formatTags buf format st

/-- The positions of the tag bytes that the calls of `_read_item` in `loads` read, in order. -/
def loadsTags (format : List Char) (buf : Bytes) (offset : Nat) : List Nat :=
  formatTags buf format { bitcount := 0, bits := 0, offset }

section
variable {fuel start tlen offset limit : Nat} {buf : Bytes} {tag : UInt8}

theorem readItem_table (found : buf[start]? = some tag) (letter : Char.ofNat tag.toNat = 'F')
    (length : unpackFrom 4 buf (start + 1) = .ok tlen) : readItem (fuel + 1) buf start =
      (readTable fuel buf (start + 1 + 4) (start + 1 + 4 + tlen) []).map
        fun x => (.dict x.1, x.2) := by
  rw [readItem, found]
  dsimp only [bind, Except.bind]
  rw [letter]
  simp only [length]
  cases readTable fuel buf (start + 1 + 4) (start + 1 + 4 + tlen) [] <;> rfl

theorem readItem_array (found : buf[start]? = some tag) (letter : Char.ofNat tag.toNat = 'A')
    (length : unpackFrom 4 buf (start + 1) = .ok tlen) : readItem (fuel + 1) buf start =
      (readArray fuel buf (start + 1 + 4) (start + 1 + 4 + tlen) []).map
        fun x => (.list x.1, x.2) := by
  rw [readItem, found]
  dsimp only [bind, Except.bind]
  rw [letter]
  simp only [length]
  cases readArray fuel buf (start + 1 + 4) (start + 1 + 4 + tlen) [] <;> rfl

variable (fuel) in
/-- Behind its own tag, an item has the tags of a table, of an array, or none. -/
theorem itemTags_cases (found : buf[start]? = some tag) :
    itemTags (fuel + 1) buf start = [start] ∨
      (∃ tlen, itemTags (fuel + 1) buf start =
          start :: tableTags fuel buf (start + 1 + 4) (start + 1 + 4 + tlen) ∧
        readItem (fuel + 1) buf start =
          (readTable fuel buf (start + 1 + 4) (start + 1 + 4 + tlen) []).map
            fun x => (.dict x.1, x.2)) ∨
      ∃ alen, itemTags (fuel + 1) buf start =
          start :: arrayTags fuel buf (start + 1 + 4) (start + 1 + 4 + alen) ∧
        readItem (fuel + 1) buf start =
          (readArray fuel buf (start + 1 + 4) (start + 1 + 4 + alen) []).map
            fun x => (.list x.1, x.2) := by
  rw [itemTags, found]
  dsimp only
  split
  · rename_i tlen letter length
    exact .inr (.inl ⟨tlen, rfl, readItem_table found letter length⟩)
  · rename_i alen letter length
    exact .inr (.inr ⟨alen, rfl, readItem_array found letter length⟩)
  · exact .inl rfl

/-- The positions increase from the offset on, and those of a reading that returns lie before the
offset it returns. -/
structure TagsRead (buf : Bytes) (offset : Nat) (tags : List Nat) (stops : Nat → Prop) : Prop where
  ascends : Ascends offset buf.length tags
  before : ∀ stop, stops stop → ∀ p ∈ tags, p < stop

theorem tagsRead_nil {stops : Nat → Prop} : TagsRead buf offset [] stops :=
  ⟨ascends_nil _ _, fun _ _ _ no => absurd no List.not_mem_nil⟩

/-- A tag, and what is read from five bytes behind it. -/
theorem TagsRead.nested {tags : List Nat} {stops : Nat → Prop} (inside : start < buf.length)
    (further : ∀ stop, stops stop → start < stop) (h : TagsRead buf (start + 1 + 4) tags stops) :
    TagsRead buf start (start :: tags) stops where
  ascends := (h.ascends.mono (by omega)).cons le_rfl inside
  before := by
    intro stop ended p hp
    rcases List.mem_cons.mp hp with rfl | later
    · exact further stop ended
    · exact h.before stop ended p later

/-- An item, and what is read from behind it. -/
theorem TagsRead.behind {tags later : List Nat} {stops stops' : Nat → Prop} {next : Nat}
    (h : TagsRead buf start tags stops) (ended : stops next) (forward : start ≤ next)
    (k : TagsRead buf next later stops') (further : ∀ stop, stops' stop → next ≤ stop) :
    TagsRead buf start (tags ++ later) stops' where
  ascends := h.ascends.append (h.before next ended) forward k.ascends
  before := by
    intro stop ended' p hp
    rcases List.mem_append.mp hp with early | late
    · exact (h.before next ended p early).trans_le (further stop ended')
    · exact k.before stop ended' p late

theorem TagsRead.mono {tags : List Nat} {stops stops' : Nat → Prop} (h : TagsRead buf start tags stops)
    (below : offset ≤ start) (same : ∀ stop, stops' stop → stops stop) :
    TagsRead buf offset tags stops' :=
  ⟨h.ascends.mono below, fun stop ended => h.before stop (same stop ended)⟩

/-- Items and the loops over them read their tags in order, by induction on the fuel. -/
theorem tags_read (buf : Bytes) (fuel : Nat) :
    (∀ start, TagsRead buf start (itemTags fuel buf start)
        fun stop => ∃ v, readItem fuel buf start = .ok (v, stop)) ∧
      (∀ offset limit val, TagsRead buf offset (tableTags fuel buf offset limit)
        fun stop => ∃ read, readTable fuel buf offset limit val = .ok (read, stop)) ∧
      ∀ offset limit val, TagsRead buf offset (arrayTags fuel buf offset limit)
        fun stop => ∃ read, readArray fuel buf offset limit val = .ok (read, stop) := by
  induction fuel with
  | zero => exact ⟨fun _ => tagsRead_nil, fun _ _ _ => tagsRead_nil, fun _ _ _ => tagsRead_nil⟩
  | succ fuel ih =>
      obtain ⟨item, table, array⟩ := ih
      obtain ⟨itemForward, _, _⟩ := reads_forward buf (fuel + 1)
      obtain ⟨forward, tableForward, arrayForward⟩ := reads_forward buf fuel
      refine ⟨fun start => ?_, fun offset limit val => ?_, fun offset limit val => ?_⟩
      · have further : ∀ stop, (∃ v, readItem (fuel + 1) buf start = .ok (v, stop)) →
            start < stop := by
          rintro stop ⟨v, ended⟩
          exact itemForward start v stop ended
        cases found : buf[start]? with
        | none =>
            have nothing : itemTags (fuel + 1) buf start = [] := by rw [itemTags, found]
            rw [nothing]
            exact tagsRead_nil
        | some tag =>
            have inside : start < buf.length := (List.getElem?_eq_some_iff.mp found).1
            rcases itemTags_cases fuel found with alone | ⟨tlen, tags, same⟩ | ⟨alen, tags, same⟩
            · rw [alone]
              exact TagsRead.nested inside further tagsRead_nil
            · rw [tags]
              refine TagsRead.nested inside further ((table _ _ []).mono le_rfl ?_)
              rintro stop ⟨v, read⟩
              rw [same] at read
              cases entries : readTable fuel buf (start + 1 + 4) (start + 1 + 4 + tlen) [] with
              | error e =>
                  rw [entries] at read
                  cases read
              | ok x =>
                  rw [entries] at read
                  cases read
                  exact ⟨x.1, rfl⟩
            · rw [tags]
              refine TagsRead.nested inside further ((array _ _ []).mono le_rfl ?_)
              rintro stop ⟨v, read⟩
              rw [same] at read
              cases items : readArray fuel buf (start + 1 + 4) (start + 1 + 4 + alen) [] with
              | error e =>
                  rw [items] at read
                  cases read
              | ok x =>
                  rw [items] at read
                  cases read
                  exact ⟨x.1, rfl⟩
      · rw [tableTags]
        split
        · rename_i inside
          split
          · exact tagsRead_nil
          · rename_i keylen length
            split
            · exact tagsRead_nil
            · rename_i key text
              have one := item (offset + 1 + keylen)
              have loop : readTable (fuel + 1) buf offset limit val =
                  (readItem fuel buf (offset + 1 + keylen) >>= fun x =>
                    readTable fuel buf x.2 limit (assocSet val key x.1)) := by
                rw [readTable, if_pos inside, length]
                dsimp only [bind, Except.bind]
                rw [text]
              cases read : readItem fuel buf (offset + 1 + keylen) with
              | error e =>
                  rw [List.append_nil]
                  refine one.mono (by omega) ?_
                  rintro stop ⟨entries, no⟩
                  rw [loop, read] at no
                  cases no
              | ok x =>
                  obtain ⟨v, next⟩ := x
                  have moved := forward _ _ _ read
                  refine (one.behind ⟨v, read⟩ moved.le (table next limit (assocSet val key v))
                    ?_).mono (by omega) ?_
                  · rintro stop ⟨entries, ended⟩
                    exact tableForward _ _ _ _ _ ended
                  · rintro stop ⟨entries, ended⟩
                    rw [loop, read] at ended
                    exact ⟨entries, ended⟩
        · exact tagsRead_nil
      · rw [arrayTags]
        split
        · rename_i inside
          have one := item offset
          have loop : readArray (fuel + 1) buf offset limit val =
              (readItem fuel buf offset >>= fun x => readArray fuel buf x.2 limit (val ++ [x.1])) := by
            rw [readArray, if_pos inside]
          cases read : readItem fuel buf offset with
          | error e =>
              rw [List.append_nil]
              refine one.mono le_rfl ?_
              rintro stop ⟨items, no⟩
              rw [loop, read] at no
              cases no
          | ok x =>
              obtain ⟨v, next⟩ := x
              have moved := forward _ _ _ read
              refine (one.behind ⟨v, read⟩ moved.le (array next limit (val ++ [v])) ?_).mono le_rfl ?_
              · rintro stop ⟨items, ended⟩
                exact arrayForward _ _ _ _ _ ended
              · rintro stop ⟨items, ended⟩
                rw [loop, read] at ended
                exact ⟨items, ended⟩
        · exact tagsRead_nil

variable {st st' : LoadState} {p : Char} {v : Val}

/-- No letter moves the offset back. -/
theorem loadOne_forward (read : loadOne buf st p = .ok (v, st')) : st.offset ≤ st'.offset := by
  obtain ⟨_, table, array⟩ := reads_forward buf (itemFuel buf)
  have number : ∀ {width : Nat} {f : Nat → Val}, (do
      return (f (← unpackFrom width buf st.offset), ⟨0, 0, st.offset + width⟩)) =
        Except.ok (v, st') → st.offset ≤ st'.offset := by
    intro width f read
    obtain ⟨n, _, read⟩ := except_bind_eq_ok.mp read
    cases read
    exact Nat.le_add_right _ _
  unfold loadOne at read
  dsimp only at read
  split at read
  · split at read
    · split at read
      · cases read
        exact Nat.le_succ _
      · cases read
    · cases read
      exact le_rfl
  · exact number read
  · exact number read
  · exact number read
  · exact number read
  · exact number read
  · obtain ⟨slen, _, read⟩ := except_bind_eq_ok.mp read
    obtain ⟨text, _, read⟩ := except_bind_eq_ok.mp read
    cases read
    dsimp only
    omega
  · obtain ⟨slen, _, read⟩ := except_bind_eq_ok.mp read
    obtain ⟨text, _, read⟩ := except_bind_eq_ok.mp read
    cases read
    dsimp only
    omega
  · obtain ⟨tlen, _, read⟩ := except_bind_eq_ok.mp read
    obtain ⟨⟨entries, stop⟩, loop, read⟩ := except_bind_eq_ok.mp read
    cases read
    have ended := table _ _ _ _ _ loop
    dsimp only
    omega
  · obtain ⟨alen, _, read⟩ := except_bind_eq_ok.mp read
    obtain ⟨⟨items, stop⟩, loop, read⟩ := except_bind_eq_ok.mp read
    cases read
    have ended := array _ _ _ _ _ loop
    dsimp only
    omega
  · obtain ⟨n, _, read⟩ := except_bind_eq_ok.mp read
    obtain ⟨date, _, read⟩ := except_bind_eq_ok.mp read
    cases read
    exact Nat.le_add_right _ _
  · cases read

variable (buf) in
/-- The tags read for a letter lie between the offsets before and after it. -/
theorem letterTags_read (st : LoadState) (p : Char) : TagsRead buf st.offset (letterTags buf st p)
    fun stop => ∃ v st', loadOne buf st p = .ok (v, st') ∧ st'.offset = stop := by
  obtain ⟨_, table, array⟩ := tags_read buf (itemFuel buf)
  unfold letterTags
  split
  · rename_i tlen length
    refine (table _ _ []).mono (by omega) ?_
    rintro stop ⟨v, st', read, rfl⟩
    unfold loadOne at read
    obtain ⟨_, length', read⟩ := except_bind_eq_ok.mp read
    cases length.symm.trans length'
    obtain ⟨⟨entries, stop⟩, loop, read⟩ := except_bind_eq_ok.mp read
    cases read
    exact ⟨entries, loop⟩
  · rename_i alen length
    refine (array _ _ []).mono (by omega) ?_
    rintro stop ⟨v, st', read, rfl⟩
    unfold loadOne at read
    obtain ⟨_, length', read⟩ := except_bind_eq_ok.mp read
    cases length.symm.trans length'
    obtain ⟨⟨items, stop⟩, loop, read⟩ := except_bind_eq_ok.mp read
    cases read
    exact ⟨items, loop⟩
  · exact tagsRead_nil

variable (buf) in
/-- So do those of a whole format, by induction on it. -/
theorem formatTags_read (format : List Char) (st : LoadState) :
    TagsRead buf st.offset (formatTags buf format st)
      fun stop => ∃ values, loadAll buf format st = .ok (values, stop) := by
  have forward : ∀ (format : List Char) (st : LoadState) values stop,
      loadAll buf format st = .ok (values, stop) → st.offset ≤ stop := by
    intro format
    induction format with
    | nil =>
        intro st values stop ended
        cases ended
        exact le_rfl
    | cons p format ih =>
        intro st values stop ended
        obtain ⟨v, st', rest, one, others, _⟩ := loadAll_cons ended
        exact (loadOne_forward one).trans (ih st' rest stop others)
  induction format generalizing st with
  | nil => exact tagsRead_nil
  | cons p format ih =>
      have first := letterTags_read buf st p
      rw [formatTags]
      cases one : loadOne buf st p with
      | error e =>
          rw [List.append_nil]
          refine first.mono le_rfl ?_
          rintro stop ⟨values, no⟩
          obtain ⟨_, _, _, one', _⟩ := loadAll_cons no
          cases one.symm.trans one'
      | ok x =>
          obtain ⟨v, st'⟩ := x
          have later := ih st'
          refine (first.behind ⟨v, st', one, rfl⟩ (loadOne_forward one) later ?_).mono le_rfl ?_
          · rintro stop ⟨values, ended⟩
            exact forward format st' values stop ended
          · rintro stop ⟨values, ended⟩
            obtain ⟨_, _, rest, one', others, _⟩ := loadAll_cons ended
            cases one.symm.trans one'
            exact ⟨rest, others⟩

end

/-- The decoder ends on every buffer, every item ends behind its offset, and the tags read lie at
increasing positions inside the buffer, so that there are no more items than bytes. -/
theorem decoder_makes_progress (buf : Bytes) :
    (∀ start, readItem (itemFuel buf) buf start ≠ .error .outOfFuel) ∧
      (∀ format offset, loads format buf offset ≠ .error .outOfFuel) ∧
      (∀ fuel start v stop, readItem fuel buf start = .ok (v, stop) → start < stop) ∧
      (∀ fuel start, Ascends start buf.length (itemTags fuel buf start)) ∧
      ∀ format offset, Ascends offset buf.length (loadsTags format buf offset) ∧
        (loadsTags format buf offset).length ≤ buf.length := by
  refine ⟨fun start => ?_, fun format offset => loads_fuel format buf offset,
    fun fuel => (reads_forward buf fuel).1, fun fuel start => ((tags_read buf fuel).1 start).ascends,
    fun format offset => ?_⟩
  · refine (fuel_enough buf (itemFuel buf)).1 start ?_
    rw [itemFuel]
    omega
  · have ascends := (formatTags_read buf format ⟨0, 0, offset⟩).ascends
    have room := ascends.length_le
    exact ⟨ascends, by unfold loadsTags; omega⟩

/-- A table whose only entry is a table with a void item. -/
example : loadsTags ['F'] [0, 0, 0, 10, 1, 97, 70, 0, 0, 0, 3, 1, 98, 86] 0 = [6, 13] := by
  decide +kernel

end MockAmqp
