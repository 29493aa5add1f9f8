import MockAmqp.Tables

/-!
# Formats of arguments

The letters of a format one after the other, and the bits that share a byte in between.
-/

namespace MockAmqp
open Exec

/-- The values in range for each letter that `dumps` documents. -/
inductive InRange : Char → Val → Prop
  | bit (b : Bool) : InRange 'b' (.bool b)
  | octet {n : Nat} (fits : n < 256) : InRange 'o' (.int n)
  | short {n : Nat} (fits : n < 2 ^ 16) : InRange 'B' (.int n)
  | long {n : Nat} (fits : n < 2 ^ 32) : InRange 'l' (.int n)
  | longlong {n : Nat} (fits : n < 2 ^ 64) : InRange 'L' (.int n)
  | shortstr {s : Str} (fits : (encodePass s).length ≤ 255) : InRange 's' (.str s)
  | longstr {s : Str} (fits : (encodePass s).length < 2 ^ 32) : InRange 'S' (.str s)
  | table {entries : List (Str × Val)} (encodable : (Val.dict entries).Encodable) :
      InRange 'F' (.dict entries)
  | array {items : List Val} (encodable : (Val.list items).Encodable) : InRange 'A' (.list items)

/-! ## Letters other than bits -/

/-- The value is written after the bits before it, and read back where it stands. -/
def LetterRoundTrips (p : Char) (v : Val) : Prop :=
  ∃ b, (∀ st, dumpOne st p v = .ok (st.flush.write b)) ∧
    ∀ buf st, Placed buf st.offset b →
      ∃ w, loadOne buf st p = .ok (w, ⟨0, 0, st.offset + b.length⟩) ∧ v.Equal w

/-- A letter for an unsigned number of a fixed width. -/
theorem number_roundTrips {p : Char} {n : Nat} (width : Nat) (fits : n < 256 ^ (width + 1))
    (written : ∀ st b, packUnsigned (width + 1) n = .ok b →
      dumpOne st p (.int n) = .ok (st.flush.write b))
    (read : ∀ buf st, unpackFrom (width + 1) buf st.offset = .ok n →
      loadOne buf st p = .ok (.int n, ⟨0, 0, st.offset + (width + 1)⟩)) :
    LetterRoundTrips p (.int n) := by
  refine ⟨beBytes (width + 1) n, fun st => written st _ (packUnsigned_ok fits), ?_⟩
  intro buf st placed
  refine ⟨.int n, ?_, .refl _⟩
  rw [length_beBytes]
  exact read buf st (unpackFrom_beBytes placed fits)

/-- A letter for text after a length of a fixed width. -/
theorem string_roundTrips {p : Char} {s : Str} (width : Nat)
    (fits : (encodePass s).length < 256 ^ (width + 1))
    (written : ∀ st b, writeString (width + 1) (.str s) = .ok b →
      dumpOne st p (.str s) = .ok (st.flush.write b))
    (read : ∀ buf st slen, unpackFrom (width + 1) buf st.offset = .ok slen →
      bytesToStr (slice buf (st.offset + (width + 1)) (st.offset + (width + 1) + slen)) = .ok s →
        loadOne buf st p = .ok (.str s, ⟨0, 0, st.offset + (width + 1) + slen⟩)) :
    LetterRoundTrips p (.str s) := by
  have text : writeString (width + 1) (.str s) =
      .ok (beBytes (width + 1) (encodePass s).length ++ encodePass s) := by
    cases s with
    | nil => exact lengthPrefixed_ok fits
    | cons c s => exact lengthPrefixed_ok fits
  refine ⟨_, fun st => written st _ text, fun buf st placed => ⟨.str s, ?_, .refl _⟩⟩
  obtain ⟨length, same⟩ := text_placed placed fits
  rw [List.length_append, length_beBytes, ← Nat.add_assoc]
  exact read buf st _ length same

theorem InRange.letter {p : Char} {v : Val} (h : InRange p v) (other : p ≠ 'b') :
    LetterRoundTrips p v := by
  cases h with
  | bit b => exact absurd rfl other
  | octet fits =>
      refine number_roundTrips 0 fits (fun st b packed => ?_) fun buf st field => ?_
      · exact except_bind_eq_ok.mpr ⟨_, rfl, except_bind_eq_ok.mpr ⟨b, packed, rfl⟩⟩
      · exact except_bind_eq_ok.mpr ⟨_, field, rfl⟩
  | short fits =>
      refine number_roundTrips 1 fits (fun st b packed => ?_) fun buf st field => ?_
      · exact except_bind_eq_ok.mpr ⟨_, rfl, except_bind_eq_ok.mpr ⟨b, packed, rfl⟩⟩
      · exact except_bind_eq_ok.mpr ⟨_, field, rfl⟩
  | long fits =>
      refine number_roundTrips 3 fits (fun st b packed => ?_) fun buf st field => ?_
      · exact except_bind_eq_ok.mpr ⟨_, rfl, except_bind_eq_ok.mpr ⟨b, packed, rfl⟩⟩
      · exact except_bind_eq_ok.mpr ⟨_, field, rfl⟩
  | longlong fits =>
      refine number_roundTrips 7 fits (fun st b packed => ?_) fun buf st field => ?_
      · exact except_bind_eq_ok.mpr ⟨_, rfl, except_bind_eq_ok.mpr ⟨b, packed, rfl⟩⟩
      · exact except_bind_eq_ok.mpr ⟨_, field, rfl⟩
  | shortstr fits =>
      refine string_roundTrips 0 (Nat.lt_succ_of_le fits) (fun st b text => ?_)
        fun buf st slen length text => ?_
      · exact except_bind_eq_ok.mpr ⟨b, text, rfl⟩
      · exact except_bind_eq_ok.mpr ⟨_, length, except_bind_eq_ok.mpr ⟨_, text, rfl⟩⟩
  | longstr fits =>
      refine string_roundTrips 3 fits (fun st b text => ?_) fun buf st slen length text => ?_
      · exact except_bind_eq_ok.mpr ⟨b, text, rfl⟩
      · exact except_bind_eq_ok.mpr ⟨_, length, except_bind_eq_ok.mpr ⟨_, text, rfl⟩⟩
  | table encodable =>
      obtain ⟨b, written, reads⟩ := table_placed encodable
      refine ⟨b, fun st => except_bind_eq_ok.mpr ⟨b, written, rfl⟩, fun buf st placed => ?_⟩
      obtain ⟨tlen, read, length, ended, same⟩ := reads buf _ placed
      exact ⟨_, except_bind_eq_ok.mpr ⟨_, length, except_bind_eq_ok.mpr ⟨_, ended, rfl⟩⟩, same⟩
  | array encodable =>
      obtain ⟨b, written, reads⟩ := array_placed encodable
      refine ⟨b, fun st => except_bind_eq_ok.mpr ⟨b, written, rfl⟩, fun buf st placed => ?_⟩
      obtain ⟨alen, read, length, ended, same⟩ := reads buf _ placed
      exact ⟨_, except_bind_eq_ok.mpr ⟨_, length, except_bind_eq_ok.mpr ⟨_, ended, rfl⟩⟩, same⟩

/-- A table under `F` or an array under `A` is read back at any offset inside any buffer. -/
theorem nested_roundTrips {letter : Char} {v : Val} (inRange : InRange letter v)
    (nested : letter = 'F' ∨ letter = 'A') :
    ∃ b, dumps [letter] [v] = .ok b ∧ ∀ before later, ∃ w,
      loads [letter] (before ++ b ++ later) before.length = .ok ([w], before.length + b.length) ∧
        v.Equal w := by
  have other : letter ≠ 'b' := by
    rcases nested with rfl | rfl
    · decide
    · decide
  obtain ⟨b, written, reads⟩ := inRange.letter other
  refine ⟨b, ?_, fun before later => ?_⟩
  · have ended : DumpState.flush (DumpState.write (DumpState.flush ⟨0, [], []⟩) b) =
        ⟨0, [], b⟩ := by
      simp [DumpState.flush, DumpState.write]
    rw [dumps, dumpAll, written]
    exact congrArg (fun st : DumpState => Except.ok st.out) ended
  · obtain ⟨w, read, same⟩ := reads (before ++ b ++ later) ⟨0, 0, before.length⟩ (.between ..)
    refine ⟨w, ?_, same⟩
    rw [loads, loadAll, read]
    rfl

theorem empty_encodable : (Val.dict []).Encodable := by
  refine .dict (by simp) (by simp) (by simp) fun b data => ?_
  cases data
  decide

/-- A table with a boolean, a number of 64 bits, a decimal and a nested table. -/
def sampleTable : List (Str × Val) :=
  [(str "a", .list [.bool true, .int 3000000000, .decimal 150 (-2), .none]), (str "b", .dict [])]

theorem sampleTable_encodable : (Val.dict sampleTable).Encodable := by
  have items : ∀ v ∈ [Val.bool true, .int 3000000000, .decimal 150 (-2), .none], v.Encodable := by
    simp only [List.forall_mem_cons, List.not_mem_nil, false_implies, implies_true, and_true]
    exact ⟨.bool _, .int (by decide) (by decide), .decimal (by decide) (by decide) (by decide),
      .none⟩
  have array : (Val.list [.bool true, .int 3000000000, .decimal 150 (-2), .none]).Encodable := by
    refine .list items fun b data => ?_
    cases data
    decide
  refine .dict ?_ (by decide) (by decide) fun b data => ?_
  · simp only [sampleTable, List.forall_mem_cons, List.not_mem_nil, false_implies, implies_true,
      and_true]
    exact ⟨array, empty_encodable⟩
  · have size : (tableData sampleTable).toOption.map List.length = some 32 := by decide +kernel
    rw [data] at size
    have length : b.length = 32 := Option.some.inj size
    omega

theorem sampleTable_roundTrips :
    ∃ b, dumps ['F'] [.dict sampleTable] = .ok b ∧ ∀ before later, ∃ w,
      loads ['F'] (before ++ b ++ later) before.length = .ok ([w], before.length + b.length) ∧
        (Val.dict sampleTable).Equal w :=
  nested_roundTrips (.table sampleTable_encodable) (.inl rfl)

/-! ## Bits -/

/-- No more than eight bits come to share a byte, with this many in it already. -/
def BitsFit : Nat → List Char → Prop
  | _, [] => True
  | pending, p :: format => if p = 'b' then pending < 8 ∧ BitsFit (pending + 1) format
      else BitsFit 0 format

theorem le_pending_of_run {p : Char} (other : p ≠ 'b') (n pending : Nat) (format : List Char) :
    List.replicate (n + 1) 'b' <+: List.replicate pending 'b' ++ p :: format → n + 1 ≤ pending := by
  induction pending generalizing n with
  | zero =>
      intro start
      exact absurd (List.cons_prefix_cons.mp start).1.symm other
  | succ pending ih =>
      intro start
      cases n with
      | zero => omega
      | succ n =>
          have next := ih n (List.cons_prefix_cons.mp start).2
          omega

theorem bitsFit_iff {pending : Nat} (few : pending ≤ 8) (format : List Char) :
    BitsFit pending format ↔
      ¬ List.replicate 9 'b' <:+: List.replicate pending 'b' ++ format := by
  induction format generalizing pending with
  | nil =>
      refine iff_of_true trivial fun within => ?_
      have size := within.length_le
      simp only [List.append_nil, List.length_replicate] at size
      omega
  | cons p format ih =>
      by_cases bit : p = 'b'
      · subst bit
        have grown : List.replicate pending 'b' ++ 'b' :: format =
            List.replicate (pending + 1) 'b' ++ format := by
          rw [List.replicate_succ', List.append_assoc]
          rfl
        rw [BitsFit, if_pos rfl, grown]
        by_cases room : pending < 8
        · rw [and_iff_right room, ih (by omega)]
        · have full : pending = 8 := by omega
          subst full
          refine iff_of_false (fun h => room h.1) fun none => none ?_
          exact (List.prefix_append _ _).isInfix
      · rw [BitsFit, if_neg bit, ih (Nat.zero_le 8), not_iff_not, List.replicate_zero,
          List.nil_append]
        constructor
        · intro within
          exact within.trans ((List.suffix_cons p format).isInfix.trans
            (List.suffix_append _ _).isInfix)
        · intro within
          induction pending with
          | zero =>
              rcases List.infix_cons_iff.mp within with start | later
              · exact absurd (le_pending_of_run bit 8 0 format start) (by omega)
              · exact later
          | succ pending step =>
              rcases List.infix_cons_iff.mp within with start | later
              · exact absurd (le_pending_of_run bit 8 (pending + 1) format start) (by omega)
              · exact step (by omega) later

/-! ## Whole formats -/

/-- The values are written, and read back from where they stand. -/
def Reads (format : List Char) (values : List Val) (st : LoadState) (buf : Bytes) (stop : Nat) :
    Prop :=
  ∃ read, loadAll buf format st = .ok (read, stop) ∧ List.Forall₂ Val.Equal values read

theorem Reads.cons {p : Char} {format : List Char} {v w : Val} {values : List Val}
    {st st' : LoadState} {buf : Bytes} {stop : Nat} (first : loadOne buf st p = .ok (w, st'))
    (same : v.Equal w) (rest : Reads format values st' buf stop) :
    Reads (p :: format) (v :: values) st buf stop := by
  obtain ⟨read, ended, sames⟩ := rest
  refine ⟨w :: read, ?_, .cons same sames⟩
  rw [loadAll, first]
  show (loadAll buf format st' >>= fun found => Except.ok (w :: found.1, found.2)) = _
  rw [ended]
  rfl

/-- With this many bits in the byte that is being filled. -/
def DumpState.filled (pending : Nat) (y : UInt8) (out : Bytes) : DumpState :=
  ⟨pending, if pending = 0 then [] else [y], out⟩

/-- With as many bits read from the byte. -/
def LoadState.emptied (pending : Nat) (x : UInt8) (offset : Nat) : LoadState :=
  if pending = 0 then ⟨0, 0, offset⟩ else ⟨7, x.toNat / 2 ^ pending, offset⟩

theorem LoadState.offset_emptied (pending : Nat) (x : UInt8) (offset : Nat) :
    (LoadState.emptied pending x offset).offset = offset := by
  rw [emptied]
  split
  · rfl
  · rfl

/-- A bit goes into the next place of the byte. -/
theorem dumpOne_bit (v : Bool) {pending : Nat} (room : pending < 8) {y : UInt8}
    (low : y.toNat < 2 ^ pending) (out : Bytes) :
    ∃ z : UInt8, z.toNat = y.toNat + 2 ^ pending * v.toNat ∧
      dumpOne (DumpState.filled pending y out) 'b' (.bool v) =
        .ok (DumpState.filled (pending + 1) z out) := by
  have small : (2 : Nat) ^ pending < 2 ^ 8 := Nat.pow_lt_pow_right (by decide) room
  have flag : (if (Val.bool v).truthy then UInt8.ofNat (2 ^ pending) else 0).toNat =
      2 ^ pending * v.toNat := by
    cases v with
    | false => simp [Val.truthy]
    | true =>
        show (UInt8.ofNat (2 ^ pending)).toNat = _
        rw [toNat_ofNat small, Bool.toNat_true, Nat.mul_one]
  refine ⟨y ||| (if (Val.bool v).truthy then UInt8.ofNat (2 ^ pending) else 0), ?_, ?_⟩
  · rw [UInt8.toNat_or, flag, Nat.or_comm, ← Nat.two_pow_add_eq_or_of_lt low, Nat.add_comm]
  · have shift : pending % 8 = pending := Nat.mod_eq_of_lt room
    rw [DumpState.filled, dumpOne, shift]
    by_cases first : pending = 0
    · subst first
      have zero : y = 0 := by
        have : y.toNat = 0 := by omega
        exact UInt8.toNat_inj.mp this
      subst zero
      rfl
    · simp [first, DumpState.filled]

/-- The bit is found in its place of the byte. -/
theorem bit_found {x y pending : Nat} {v : Bool} (low : y < 2 ^ pending)
    (place : x % 2 ^ (pending + 1) = y + 2 ^ pending * v.toNat) :
    x % 2 ^ pending = y ∧ x / 2 ^ pending % 2 = v.toNat := by
  have high : x % 2 ^ (pending + 1) / 2 ^ pending = x / 2 ^ pending % 2 := by
    rw [Nat.pow_succ, Nat.mod_mul_right_div_self]
  have lower : x % 2 ^ (pending + 1) % 2 ^ pending = x % 2 ^ pending :=
    Nat.mod_mod_of_dvd x (Nat.pow_dvd_pow 2 (Nat.le_succ pending))
  rw [place] at high lower
  rw [← high, ← lower]
  constructor
  · rw [Nat.add_mul_mod_self_left, Nat.mod_eq_of_lt low]
  · rw [Nat.add_mul_div_left _ _ (Nat.two_pow_pos pending), Nat.div_eq_of_lt low, Nat.zero_add]

theorem decide_bit {n : Nat} {v : Bool} (place : n % 2 = v.toNat) : decide (n % 2 = 1) = v := by
  rw [place]
  cases v with
  | false => rfl
  | true => rfl

/-- The first bit of a run reads its byte. -/
theorem loadOne_first {buf : Bytes} {offset : Nat} {x : UInt8} {v : Bool}
    (byte : buf[offset]? = some x) (place : x.toNat % 2 = v.toNat) :
    loadOne buf ⟨0, 0, offset⟩ 'b' = .ok (.bool v, LoadState.emptied 1 x (offset + 1)) := by
  rw [loadOne, if_pos rfl, byte]
  show Except.ok (Val.bool (decide (x.toNat % 2 = 1)), _) = _
  rw [decide_bit place]
  rfl

theorem loadOne_later {buf : Bytes} {offset pending : Nat} {x : UInt8} {v : Bool}
    (later : pending ≠ 0) (place : x.toNat / 2 ^ pending % 2 = v.toNat) :
    loadOne buf (LoadState.emptied pending x offset) 'b' =
      .ok (.bool v, LoadState.emptied (pending + 1) x offset) := by
  rw [LoadState.emptied, if_neg later, loadOne, if_neg (show ¬ 7 = 0 by decide)]
  show Except.ok (Val.bool (decide (x.toNat / 2 ^ pending % 2 = 1)),
    (⟨7, x.toNat / 2 ^ pending / 2, offset⟩ : LoadState)) = _
  rw [decide_bit place, Nat.div_div_eq_div_mul, ← Nat.pow_succ]
  rfl

theorem dumpAll_loadAll {format : List Char} {values : List Val}
    (inRange : List.Forall₂ InRange format values) {pending : Nat} (few : pending ≤ 8)
    (fits : BitsFit pending format) {y : UInt8} (low : y.toNat < 2 ^ pending) (out : Bytes) :
    ∃ x b, x.toNat % 2 ^ pending = y.toNat ∧
      dumpAll format values (DumpState.filled pending y out) =
        .ok (out ++ (if pending = 0 then [] else [x]) ++ b) ∧
      ∀ buf offset, Placed buf offset b →
        Reads format values (LoadState.emptied pending x offset) buf (offset + b.length) := by
  induction inRange generalizing pending y out with
  | nil =>
      refine ⟨y, [], Nat.mod_eq_of_lt low, ?_, fun buf offset _ => ⟨[], ?_, .nil⟩⟩
      · rw [List.append_nil]
        rfl
      · rw [loadAll, LoadState.offset_emptied]
        rfl
  | @cons p v format values first rest ih =>
      by_cases bit : p = 'b'
      · subst bit
        rw [BitsFit, if_pos rfl] at fits
        obtain ⟨room, fits⟩ := fits
        cases first with
        | bit v =>
            obtain ⟨z, grown, written⟩ := dumpOne_bit v room low out
            have low' : z.toNat < 2 ^ (pending + 1) := by
              rw [grown, Nat.pow_succ]
              cases v with
              | false => simp; omega
              | true => simp; omega
            obtain ⟨x, b, place, dumped, reads⟩ := ih room fits low' out
            rw [grown] at place
            obtain ⟨lower, found⟩ := bit_found low place
            by_cases start : pending = 0
            · subst start
              refine ⟨y, x :: b, Nat.mod_eq_of_lt low, ?_, fun buf offset placed => ?_⟩
              · rw [dumpAll, written]
                exact dumped.trans (by simp)
              · have byte := loadOne_first placed.getElem?_eq (by simpa using found)
                have next := reads buf _ placed.tail
                have size : offset + (x :: b).length = offset + 1 + b.length := by
                  rw [List.length_cons]
                  omega
                rw [size]
                exact .cons byte (.refl _) next
            · refine ⟨x, b, lower, ?_, fun buf offset placed => ?_⟩
              · rw [dumpAll, written, if_neg start]
                exact dumped
              · exact .cons (loadOne_later start found) (.refl _) (reads buf offset placed)
      · rw [BitsFit, if_neg bit] at fits
        obtain ⟨b, written, readsOne⟩ := first.letter bit
        have clean : DumpState.write (DumpState.flush (DumpState.filled pending y out)) b =
            DumpState.filled 0 0 (out ++ (if pending = 0 then [] else [y]) ++ b) := rfl
        obtain ⟨_, more, _, dumped, reads⟩ := ih (Nat.zero_le 8) fits
          (show (0 : UInt8).toNat < 2 ^ 0 by decide)
          (out ++ (if pending = 0 then [] else [y]) ++ b)
        refine ⟨y, b ++ more, Nat.mod_eq_of_lt low, ?_, fun buf offset placed => ?_⟩
        · rw [dumpAll, written, clean]
          refine dumped.trans ?_
          rw [if_pos rfl, List.append_nil, List.append_assoc _ b]
        · have here : Placed buf (LoadState.emptied pending y offset).offset b := by
            rw [LoadState.offset_emptied]
            exact placed.left
          obtain ⟨w, one, same⟩ := readsOne buf _ here
          rw [LoadState.offset_emptied] at one
          rw [List.length_append, ← Nat.add_assoc]
          exact .cons one same (reads buf _ placed.right)

/-- What fits is read back wherever it stands. -/
theorem dumps_loads {format : List Char} {values : List Val}
    (inRange : List.Forall₂ InRange format values) (fits : BitsFit 0 format) :
    ∃ b, dumps format values = .ok b ∧ ∀ buf offset, Placed buf offset b →
      ∃ read, loads format buf offset = .ok (read, offset + b.length) ∧
        List.Forall₂ Val.Equal values read := by
  obtain ⟨x, b, _, dumped, reads⟩ := dumpAll_loadAll inRange (Nat.zero_le 8) fits
    (show (0 : UInt8).toNat < 2 ^ 0 by decide) []
  exact ⟨b, dumped, reads⟩

/-! ## Runs of more than eight bits -/

def documentedLetters : List Char := ['b', 'o', 'B', 'l', 'L', 's', 'S', 'F', 'A']

def FormatRoundTrips (format : List Char) : Prop :=
  ∀ values, List.Forall₂ InRange format values →
    ∃ b, dumps format values = .ok b ∧ ∃ read, loads format b 0 = .ok (read, b.length) ∧
      List.Forall₂ Val.Equal values read

/-- A value in range for each letter: bits are set, and the rest is zero or empty. -/
def plainValue : Char → Val
  | 'b' => .bool true
  | 's' | 'S' => .str []
  | 'F' => .dict []
  | 'A' => .list []
  | _ => .int 0

theorem plainValue_inRange {p : Char} (documented : p ∈ documentedLetters) :
    InRange p (plainValue p) := by
  simp only [documentedLetters, List.mem_cons, List.not_mem_nil, or_false] at documented
  rcases documented with rfl | rfl | rfl | rfl | rfl | rfl | rfl | rfl | rfl
  · exact .bit true
  · exact .octet (by decide)
  · exact .short (by decide)
  · exact .long (by decide)
  · exact .longlong (by decide)
  · exact .shortstr (by decide)
  · exact .longstr (by decide)
  · exact .table empty_encodable
  · refine .array (.list (by simp) fun b data => ?_)
    cases data
    decide

section
variable {buf : Bytes} {st st' : LoadState} {v : Val}

theorem loadOne_bit (read : loadOne buf st 'b' = .ok (v, st')) (byte : st.bits < 256) :
    ∃ n < 256, v = .bool (decide (n % 2 = 1)) ∧ st'.bits = n / 2 ∧ st'.bitcount = 7 ∧
      (st.bitcount ≠ 0 → n = st.bits) := by
  rw [loadOne] at read
  split at read
  · next fresh =>
      split at read
      · next x _ =>
          cases read
          exact ⟨x.toNat, x.toNat_lt, rfl, rfl, rfl, fun running => absurd fresh running⟩
      · cases read
  · cases read
    exact ⟨st.bits, byte, rfl, rfl, rfl, fun _ => rfl⟩

/-- Every other letter ends a run of bits. -/
theorem loadOne_clears {p : Char} (other : p ≠ 'b') (read : loadOne buf st p = .ok (v, st')) :
    st'.bitcount = 0 ∧ st'.bits = 0 := by
  unfold loadOne at read
  split at read
  · exact absurd rfl other
  all_goals
    first
    | cases read
    | obtain ⟨_, _, read⟩ := except_bind_eq_ok.mp read
      first
      | cases read
        exact ⟨rfl, rfl⟩
      | obtain ⟨_, _, read⟩ := except_bind_eq_ok.mp read
        cases read
        exact ⟨rfl, rfl⟩

/-- The register holds at most a byte. -/
theorem loadOne_bits {p : Char} (read : loadOne buf st p = .ok (v, st')) (byte : st.bits < 256) :
    st'.bits < 256 := by
  by_cases bit : p = 'b'
  · subst bit
    obtain ⟨n, small, _, bits, _⟩ := loadOne_bit read byte
    omega
  · rw [(loadOne_clears bit read).2]
    decide

/-- Bits that are read on from an empty register are not set. -/
theorem exhausted {k : Nat} {later : List Char} {read : List Val} {stop : Nat}
    (running : st.bitcount ≠ 0) (left : st.bits < 2 ^ k) (few : k < 8)
    (loaded : loadAll buf (List.replicate (k + 1) 'b' ++ later) st = .ok (read, stop)) :
    read[k]? = some (.bool false) := by
  have small : (2 : Nat) ^ k < 2 ^ 8 := Nat.pow_lt_pow_right (by decide) few
  induction k generalizing st read stop with
  | zero =>
      obtain ⟨⟨v, st'⟩, one, more⟩ := except_bind_eq_ok.mp loaded
      obtain ⟨⟨values, offset⟩, _, ended⟩ := except_bind_eq_ok.mp more
      obtain ⟨n, _, rfl, _, _, same⟩ := loadOne_bit one (by omega)
      have zero : n = 0 := by
        rw [same running]
        omega
      subst zero
      cases ended
      rfl
  | succ k ih =>
      obtain ⟨⟨v, st'⟩, one, more⟩ := except_bind_eq_ok.mp loaded
      obtain ⟨⟨values, offset⟩, rest, ended⟩ := except_bind_eq_ok.mp more
      obtain ⟨n, _, _, bits, count, same⟩ := loadOne_bit one (by omega)
      have halved : st'.bits < 2 ^ k := by
        rw [bits, same running]
        rw [Nat.pow_succ] at left
        omega
      have last := ih (by omega) halved (by omega) rest
        (Nat.pow_lt_pow_right (by decide) (by omega))
      cases ended
      exact last

/-- The ninth bit of a run is never read as set. -/
theorem ninth_bit {later : List Char} {read : List Val} {stop : Nat} (byte : st.bits < 256)
    (loaded : loadAll buf (List.replicate 9 'b' ++ later) st = .ok (read, stop)) :
    read[8]? = some (.bool false) := by
  obtain ⟨⟨v, st'⟩, one, more⟩ := except_bind_eq_ok.mp loaded
  obtain ⟨⟨values, offset⟩, rest, ended⟩ := except_bind_eq_ok.mp more
  obtain ⟨n, small, _, bits, count, _⟩ := loadOne_bit one byte
  have last := exhausted (k := 7) (by omega) (by omega) (by decide) rest
  cases ended
  exact last

theorem loadAll_append {format later : List Char} {read : List Val} {stop : Nat}
    (byte : st.bits < 256) (loaded : loadAll buf (format ++ later) st = .ok (read, stop)) :
    ∃ st' head tail, read = head ++ tail ∧ head.length = format.length ∧ st'.bits < 256 ∧
      loadAll buf later st' = .ok (tail, stop) := by
  induction format generalizing st read with
  | nil => exact ⟨st, [], read, rfl, rfl, byte, loaded⟩
  | cons p format ih =>
      obtain ⟨⟨v, st1⟩, one, more⟩ := except_bind_eq_ok.mp loaded
      obtain ⟨⟨values, offset⟩, rest, ended⟩ := except_bind_eq_ok.mp more
      cases ended
      obtain ⟨st', head, tail, rfl, size, byte', ended⟩ := ih (loadOne_bits one byte) rest
      exact ⟨st', v :: head, tail, rfl, congrArg (· + 1) size, byte', ended⟩

end

theorem forall₂_getElem? {α β : Type} {R : α → β → Prop} {xs : List α} {ys : List β}
    (h : List.Forall₂ R xs ys) {i : Nat} {x : α} {y : β} (left : xs[i]? = some x)
    (right : ys[i]? = some y) : R x y := by
  obtain ⟨_, rfl⟩ := List.getElem?_eq_some_iff.mp left
  obtain ⟨_, rfl⟩ := List.getElem?_eq_some_iff.mp right
  exact h.get _ _

/-- The formats that are read back as written are those without a run of more than eight bits. -/
theorem formatRoundTrips_iff {format : List Char} (letters : ∀ p ∈ format, p ∈ documentedLetters) :
    FormatRoundTrips format ↔ ¬ List.replicate 9 'b' <:+: format := by
  constructor
  · rintro whole ⟨before, later, rfl⟩
    have inRange : List.Forall₂ InRange (before ++ List.replicate 9 'b' ++ later)
        ((before ++ List.replicate 9 'b' ++ later).map plainValue) := by
      rw [List.forall₂_map_right_iff]
      exact List.forall₂_same.mpr fun p member => plainValue_inRange (letters p member)
    obtain ⟨b, _, read, loaded, same⟩ := whole _ inRange
    rw [List.append_assoc] at loaded same
    obtain ⟨st', head, tail, rfl, size, byte, rest⟩ :=
      loadAll_append (show (0 : Nat) < 256 by decide) loaded
    have ninth := ninth_bit byte rest
    have length : head.length = (before.map plainValue).length := by rw [size, List.length_map]
    have run := List.forall₂_drop head.length same
    rw [List.drop_left, List.map_append, length, List.drop_left] at run
    have bit : (List.map plainValue (List.replicate 9 'b' ++ later))[8]? = some (.bool true) := rfl
    cases forall₂_getElem? run bit ninth
  · intro short values inRange
    have fits := (bitsFit_iff (Nat.zero_le 8) format).mpr short
    obtain ⟨b, dumped, reads⟩ := dumps_loads inRange fits
    obtain ⟨read, loaded, same⟩ := reads b 0 List.prefix_rfl
    rw [Nat.zero_add] at loaded
    exact ⟨b, dumped, read, loaded, same⟩

theorem nine_bits_lost : ¬ FormatRoundTrips ['b', 'b', 'b', 'b', 'b', 'b', 'b', 'b', 'b'] := by
  intro whole
  have inRange : List.Forall₂ InRange (List.replicate 9 'b')
      ((List.replicate 9 'b').map fun _ => .bool true) := by
    rw [List.forall₂_map_right_iff]
    refine List.forall₂_same.mpr fun p member => ?_
    rw [List.eq_of_mem_replicate member]
    exact .bit true
  obtain ⟨b, dumped, read, loaded, same⟩ := whole _ inRange
  cases dumped
  cases loaded

theorem queueDeclare_roundTrips :
    FormatRoundTrips "BsbbbbbF".toList ↔ ¬ List.replicate 9 'b' <:+: "BsbbbbbF".toList :=
  formatRoundTrips_iff (by simp [documentedLetters])

end MockAmqp
