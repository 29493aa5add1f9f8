import MockAmqp.Values

/-!
# Text as bytes

Encoding and decoding are inverse to each other, and bytes are decoded piece by piece wherever a
character ends.
-/

namespace MockAmqp

/-! ## Encoding -/

theorem toNat_ofNat {k : Nat} (h : k < 256) : (UInt8.ofNat k).toNat = k := by
  rw [UInt8.toNat_ofNat']
  omega

theorem isContinuation_ofNat {k : Nat} (h : k < 64) :
    isContinuation (UInt8.ofNat (0x80 + k)) = true := by
  rw [isContinuation, toNat_ofNat (by omega)]
  simp
  omega

/-- A character that the codec admits is decoded from its own bytes, whatever follows. -/
theorem decodeUtf8_encodeCodePoint {pass : Bool} {c : CodePoint}
    (admitted : pass = true ∨ isSurrogate c.val = false) (t : Bytes) :
    decodeUtf8 pass (encodeCodePoint c ++ t) = (decodeUtf8 pass t).map (c :: ·) := by
  have bound := c.isLt
  have back : ∀ n, n = c.val → Fin.ofNat 0x110000 n = c := by
    rintro n rfl
    exact Fin.ofNat_val_eq_self c
  simp only [encodeCodePoint]
  split_ifs with one two three
  · rw [List.singleton_append]
    conv_lhs => unfold decodeUtf8
    rw [toNat_ofNat (by omega), if_pos one, back _ rfl]
  · rw [List.cons_append, List.cons_append, List.nil_append]
    conv_lhs => unfold decodeUtf8
    simp only [toNat_ofNat (show 0xC0 + c.val / 64 < 256 by omega),
      toNat_ofNat (show 0x80 + c.val % 64 < 256 by omega),
      isContinuation_ofNat (show c.val % 64 < 64 by omega)]
    rw [if_neg (by omega), if_pos ⟨by omega, by omega, trivial⟩, back _ (by omega)]
  · have plain : pass = true ∨ ¬ isSurrogate c.val = true := by simpa using admitted
    have whole : (0xE0 + c.val / 4096 - 0xE0) * 4096 + (0x80 + c.val / 64 % 64 - 0x80) * 64 +
        (0x80 + c.val % 64 - 0x80) = c.val := by omega
    rw [List.cons_append, List.cons_append, List.cons_append, List.nil_append]
    conv_lhs => unfold decodeUtf8
    simp only [toNat_ofNat (show 0xE0 + c.val / 4096 < 256 by omega),
      toNat_ofNat (show 0x80 + c.val / 64 % 64 < 256 by omega),
      toNat_ofNat (show 0x80 + c.val % 64 < 256 by omega),
      isContinuation_ofNat (show c.val / 64 % 64 < 64 by omega),
      isContinuation_ofNat (show c.val % 64 < 64 by omega), whole]
    rw [if_neg (by omega), if_neg (by omega),
      if_pos ⟨by omega, by omega, trivial, trivial, by omega, plain⟩, back _ rfl]
  · have whole : (0xF0 + c.val / 262144 - 0xF0) * 262144 +
        (0x80 + c.val / 4096 % 64 - 0x80) * 4096 + (0x80 + c.val / 64 % 64 - 0x80) * 64 +
        (0x80 + c.val % 64 - 0x80) = c.val := by omega
    rw [List.cons_append, List.cons_append, List.cons_append, List.cons_append, List.nil_append]
    conv_lhs => unfold decodeUtf8
    simp only [toNat_ofNat (show 0xF0 + c.val / 262144 < 256 by omega),
      toNat_ofNat (show 0x80 + c.val / 4096 % 64 < 256 by omega),
      toNat_ofNat (show 0x80 + c.val / 64 % 64 < 256 by omega),
      toNat_ofNat (show 0x80 + c.val % 64 < 256 by omega),
      isContinuation_ofNat (show c.val / 4096 % 64 < 64 by omega),
      isContinuation_ofNat (show c.val / 64 % 64 < 64 by omega),
      isContinuation_ofNat (show c.val % 64 < 64 by omega), whole]
    rw [if_neg (by omega), if_neg (by omega), if_neg (by omega),
      if_pos ⟨by omega, by omega, trivial, trivial, trivial, by omega, bound⟩, back _ rfl]

/-- Text is decoded from its own bytes. -/
theorem decodeUtf8_encodePass {pass : Bool} {s : Str}
    (admitted : ∀ c ∈ s, pass = true ∨ isSurrogate c.val = false) :
    decodeUtf8 pass (encodePass s) = .ok s := by
  induction s with
  | nil => rfl
  | cons c s ih =>
      obtain ⟨first, rest⟩ := List.forall_mem_cons.mp admitted
      rw [encodePass, List.flatMap_cons, decodeUtf8_encodeCodePoint first]
      show (decodeUtf8 pass (encodePass s)).map (c :: ·) = .ok (c :: s)
      rw [ih rest]
      rfl

theorem decodeUtf8_encodeUtf8 {s : Str} {b : Bytes} (encoded : encodeUtf8 s = .ok b) :
    decodeUtf8 false b = .ok s := by
  unfold encodeUtf8 at encoded
  split at encoded
  · cases encoded
  · next plain =>
      cases encoded
      refine decodeUtf8_encodePass fun c member => .inr ?_
      have all := List.any_eq_false.mp (by simpa using plain) c member
      simpa using all

/-! ## Decoding -/

theorem decoded_more {x y z : Except PyError Str} {c : CodePoint} {s : Str}
    (read : x.map (c :: ·) = .ok s) (rest : ∀ {r}, x = .ok r → y = z.map (r ++ ·)) :
    y.map (c :: ·) = z.map (s ++ ·) := by
  cases x with
  | error e => cases read
  | ok r =>
      cases read
      rw [rest rfl]
      cases z <;> rfl

theorem decodeUtf8_append {pass : Bool} {a : Bytes} {s : Str} (read : decodeUtf8 pass a = .ok s)
    (b : Bytes) : decodeUtf8 pass (a ++ b) = (decodeUtf8 pass b).map (s ++ ·) := by
  fun_induction decodeUtf8 pass a generalizing s with
  | case1 =>
      cases read
      rw [List.nil_append]
      cases decodeUtf8 pass b <;> rfl
  | case2 b0 rest one ih =>
      rw [List.cons_append, decodeUtf8.eq_def]
      dsimp only
      rw [if_pos one]
      exact decoded_more read ih
  | case4 b0 many b1 rest two ih =>
      rw [List.cons_append, List.cons_append, decodeUtf8.eq_def]
      dsimp only
      rw [if_neg many, if_pos two]
      exact decoded_more read ih
  | case6 b0 many b1 other b2 rest n three =>
      rename_i ih
      rw [List.cons_append, List.cons_append, List.cons_append, decodeUtf8.eq_def]
      dsimp only
      rw [if_neg many, if_neg other, if_pos three]
      exact decoded_more read ih
  | case8 b0 many b1 other b2 n other' b3 rest =>
      rename_i n' four ih
      rw [List.cons_append, List.cons_append, List.cons_append, List.cons_append,
        decodeUtf8.eq_def]
      dsimp only
      rw [if_neg many, if_neg other, if_neg other', if_pos four]
      exact decoded_more read ih
  | _ => cases read

theorem decoded_head {x : Except PyError Str} {c : CodePoint} {s : Str}
    (read : x.map (c :: ·) = .ok s) : c ∈ s := by
  cases x with
  | error e => cases read
  | ok r =>
      cases read
      exact List.mem_cons_self

/-- The characters below 128 are those of one byte. -/
theorem ascii_of_decoded {pass : Bool} {a : Bytes} {s : Str} (read : decodeUtf8 pass a = .ok s)
    (low : ∀ c ∈ s, c.val < 0x80) : ∀ x ∈ a, x.toNat < 0x80 := by
  fun_induction decodeUtf8 pass a generalizing s with
  | case1 => simp
  | case2 b0 rest one ih =>
      cases tail : decodeUtf8 pass rest with
      | error e =>
          rw [tail] at read
          cases read
      | ok r =>
          rw [tail] at read
          cases read
          intro x mem
          rcases List.mem_cons.mp mem with rfl | later
          · exact one
          · exact ih tail (fun c mem => low c (List.mem_cons_of_mem _ mem)) x later
  | case4 b0 many b1 rest two ih =>
      have small := low _ (decoded_head read)
      simp only [Fin.ofNat] at small
      have second := b1.toNat_lt
      omega
  | case6 b0 many b1 other b2 rest n three =>
      have small := low _ (decoded_head read)
      simp only [Fin.ofNat] at small
      have second := b1.toNat_lt
      have third := b2.toNat_lt
      omega
  | case8 b0 many b1 other b2 n other' b3 rest =>
      rename_i four _
      have small := low _ (decoded_head read)
      simp only [Fin.ofNat] at small
      omega
  | _ => cases read

theorem decodeUtf8_ascii (pass : Bool) {a : Bytes} (low : ∀ x ∈ a, x.toNat < 0x80) :
    decodeUtf8 pass a = .ok (a.map fun x => Fin.ofNat _ x.toNat) := by
  induction a with
  | nil => rfl
  | cons b rest ih =>
      rw [decodeUtf8.eq_def]
      dsimp only
      rw [if_pos (low b List.mem_cons_self), ih fun x mem => low x (List.mem_cons_of_mem b mem)]
      rfl

theorem decoded_error {x : Except PyError Str} {f : Str → Str} {e : PyError}
    (failed : x.map f = .error e) : x = .error e := by
  cases x with
  | error e' => exact failed
  | ok s => cases failed

theorem decodeUtf8_error {pass : Bool} {b : Bytes} {e : PyError}
    (failed : decodeUtf8 pass b = .error e) : e = .unicodeDecodeError := by
  fun_induction decodeUtf8 pass b
  all_goals
    first
    | cases failed
      done
    | cases failed
      rfl
    | rename_i ih
      exact ih (decoded_error failed)

theorem decoded_cons {x : Except PyError Str} {c : CodePoint} {s : Str}
    (read : x.map (c :: ·) = .ok s) : ∃ r, x = .ok r ∧ s = c :: r := by
  cases x with
  | error e => cases read
  | ok r =>
      cases read
      exact ⟨r, rfl, rfl⟩

theorem continuation_bounds {b : UInt8} (h : isContinuation b = true) :
    0x80 ≤ b.toNat ∧ b.toNat < 0xC0 := by
  simpa [isContinuation] using h

theorem ofNat_toNat_eq {k : Nat} (b : UInt8) (h : k = b.toNat) : UInt8.ofNat k = b := by
  rw [h]
  exact UInt8.ofNat_toNat

theorem val_ofNat {n : Nat} (h : n < 0x110000) : (Fin.ofNat 0x110000 n).val = n :=
  Nat.mod_eq_of_lt h

/-- Text is encoded to the bytes that it was decoded from. -/
theorem encodePass_of_decoded {pass : Bool} {b : Bytes} {s : Str}
    (read : decodeUtf8 pass b = .ok s) : encodePass s = b := by
  have step : ∀ (front : Bytes) {c : CodePoint} {rest : Bytes} {s : Str}, encodeCodePoint c = front →
      (decodeUtf8 pass rest).map (c :: ·) = .ok s →
        (∀ {r}, decodeUtf8 pass rest = .ok r → encodePass r = rest) →
          encodePass s = front ++ rest := by
    intro front c rest s first read ih
    obtain ⟨r, tail, rfl⟩ := decoded_cons read
    rw [encodePass, List.flatMap_cons, first, ← ih tail]
    rfl
  fun_induction decodeUtf8 pass b generalizing s with
  | case1 =>
      cases read
      rfl
  | case2 b0 rest one ih =>
      refine step [b0] ?_ read ih
      simp only [encodeCodePoint]
      rw [val_ofNat (by omega), if_pos one, UInt8.ofNat_toNat]
  | case4 b0 many b1 rest two ih =>
      obtain ⟨low, high, second⟩ := two
      obtain ⟨low1, high1⟩ := continuation_bounds second
      refine step [b0, b1] ?_ read ih
      simp only [encodeCodePoint]
      rw [val_ofNat (by omega), if_neg (by omega), if_pos (by omega),
        ofNat_toNat_eq b0 (by omega), ofNat_toNat_eq b1 (by omega)]
  | case6 b0 many b1 other b2 rest n three =>
      rename_i ih
      obtain ⟨low, high, second, third, long, _⟩ := three
      obtain ⟨low1, high1⟩ := continuation_bounds second
      obtain ⟨low2, high2⟩ := continuation_bounds third
      refine step [b0, b1, b2] ?_ read ih
      simp only [encodeCodePoint]
      rw [val_ofNat (by omega), if_neg (by omega), if_neg (by omega), if_pos (by omega),
        ofNat_toNat_eq b0 (by omega), ofNat_toNat_eq b1 (by omega),
        ofNat_toNat_eq b2 (by omega)]
  | case8 b0 many b1 other b2 n other' b3 rest =>
      rename_i n' four ih
      obtain ⟨low, high, second, third, fourth, long, bound⟩ := four
      obtain ⟨low1, high1⟩ := continuation_bounds second
      obtain ⟨low2, high2⟩ := continuation_bounds third
      obtain ⟨low3, high3⟩ := continuation_bounds fourth
      refine step [b0, b1, b2, b3] ?_ read ih
      simp only [encodeCodePoint]
      rw [val_ofNat (by omega), if_neg (by omega), if_neg (by omega), if_neg (by omega),
        ofNat_toNat_eq b0 (by omega), ofNat_toNat_eq b1 (by omega),
        ofNat_toNat_eq b2 (by omega), ofNat_toNat_eq b3 (by omega)]
  | _ => cases read

/-- Bytes that break off inside a character are not completed by the beginning of another one. -/
theorem decodeUtf8_broken {pass : Bool} {a b : Bytes} {e : PyError}
    (failed : decodeUtf8 pass a = .error e)
    (boundary : ∀ x, b.head? = some x → isContinuation x = false) :
    decodeUtf8 pass (a ++ b) = .error .unicodeDecodeError := by
  fun_induction decodeUtf8 pass a generalizing e with
  | case1 => cases failed
  | case2 b0 rest one ih =>
      rw [List.cons_append, decodeUtf8.eq_def]
      dsimp only
      rw [if_pos one, ih (decoded_error failed)]
      rfl
  | case3 b0 many =>
      rw [List.cons_append, List.nil_append, decodeUtf8.eq_def]
      dsimp only
      rw [if_neg many]
      cases b with
      | nil => rfl
      | cons x b =>
          have plain := boundary x rfl
          simp only [plain, Bool.false_eq_true, and_false, false_and, if_false]
          cases b with
          | nil => rfl
          | cons y b =>
              dsimp only
              cases b with
              | nil => rfl
              | cons z b => rfl
  | case4 b0 many b1 rest two ih =>
      rw [List.cons_append, List.cons_append, decodeUtf8.eq_def]
      dsimp only
      rw [if_neg many, if_pos two, ih (decoded_error failed)]
      rfl
  | case5 b0 many b1 other =>
      rw [List.cons_append, List.cons_append, List.nil_append, decodeUtf8.eq_def]
      dsimp only
      rw [if_neg many, if_neg other]
      cases b with
      | nil => rfl
      | cons x b =>
          have plain := boundary x rfl
          simp only [plain, Bool.false_eq_true, and_false, false_and, if_false]
          cases b with
          | nil => rfl
          | cons y b => rfl
  | case6 b0 many b1 other b2 rest n three =>
      rename_i ih
      rw [List.cons_append, List.cons_append, List.cons_append, decodeUtf8.eq_def]
      dsimp only
      rw [if_neg many, if_neg other, if_pos three, ih (decoded_error failed)]
      rfl
  | case7 b0 many b1 other b2 n =>
      rename_i other'
      rw [List.cons_append, List.cons_append, List.cons_append, List.nil_append,
        decodeUtf8.eq_def]
      dsimp only
      rw [if_neg many, if_neg other, if_neg other']
      cases b with
      | nil => rfl
      | cons x b =>
          have plain := boundary x rfl
          simp only [plain, Bool.false_eq_true, and_false, false_and, if_false]
  | case8 b0 many b1 other b2 n other' b3 rest =>
      rename_i n' four ih
      rw [List.cons_append, List.cons_append, List.cons_append, List.cons_append,
        decodeUtf8.eq_def]
      dsimp only
      rw [if_neg many, if_neg other, if_neg other', if_pos four, ih (decoded_error failed)]
      rfl
  | case9 b0 many b1 other b2 n other' b3 rest =>
      rename_i n' four
      rw [List.cons_append, List.cons_append, List.cons_append, List.cons_append,
        decodeUtf8.eq_def]
      dsimp only
      rw [if_neg many, if_neg other, if_neg other', if_neg four]

/-- The strict codec decodes no surrogates. -/
theorem plain_of_decoded {b : Bytes} {s : Str} (read : decodeUtf8 false b = .ok s) :
    ∀ c ∈ s, isSurrogate c.val = false := by
  have step : ∀ {c : CodePoint} {rest : Bytes} {s : Str}, isSurrogate c.val = false →
      (decodeUtf8 false rest).map (c :: ·) = .ok s →
        (∀ {r}, decodeUtf8 false rest = .ok r → ∀ c ∈ r, isSurrogate c.val = false) →
          ∀ c ∈ s, isSurrogate c.val = false := by
    intro c rest s first read ih
    obtain ⟨r, tail, rfl⟩ := decoded_cons read
    exact List.forall_mem_cons.mpr ⟨first, ih tail⟩
  have low : ∀ n, n < 0xD800 → isSurrogate (Fin.ofNat 0x110000 n).val = false := by
    intro n small
    rw [val_ofNat (by omega), isSurrogate]
    simp
    omega
  generalize strict : false = pass at read
  fun_induction decodeUtf8 pass b generalizing s with
  | case1 =>
      cases read
      simp
  | case2 b0 rest one ih =>
      subst strict
      exact step (low _ (by omega)) read ih
  | case4 b0 many b1 rest two ih =>
      subst strict
      obtain ⟨_, high, second⟩ := two
      obtain ⟨_, high1⟩ := continuation_bounds second
      exact step (low _ (by omega)) read ih
  | case6 b0 many b1 other b2 rest n three =>
      rename_i ih
      subst strict
      obtain ⟨_, high, second, third, _, plain⟩ := three
      obtain ⟨_, high1⟩ := continuation_bounds second
      obtain ⟨_, high2⟩ := continuation_bounds third
      refine step ?_ read ih
      rw [val_ofNat (by omega)]
      simpa using plain
  | case8 b0 many b1 other b2 n other' b3 rest =>
      rename_i n' four ih
      subst strict
      obtain ⟨_, _, _, _, _, long, bound⟩ := four
      refine step ?_ read ih
      rw [val_ofNat bound, isSurrogate]
      simp
      omega
  | _ => cases read

theorem encodeUtf8_plain {s : Str} (plain : ∀ c ∈ s, isSurrogate c.val = false) :
    encodeUtf8 s = .ok (encodePass s) := by
  have none : ¬ s.any (fun c => isSurrogate c.val) = true := by
    rw [List.any_eq_true]
    rintro ⟨c, member, surrogate⟩
    rw [plain c member] at surrogate
    cases surrogate
  rw [encodeUtf8, if_neg none]

/-- What the strict codec decodes is what the lax one decodes to text that can be encoded. -/
theorem decodeUtf8_strict_iff {b : Bytes} {s : Str} : decodeUtf8 false b = .ok s ↔
    decodeUtf8 true b = .ok s ∧ encodeUtf8 s = .ok b := by
  constructor
  · intro read
    have same := encodePass_of_decoded read
    constructor
    · rw [← same]
      exact decodeUtf8_encodePass fun _ _ => .inl rfl
    · rw [encodeUtf8_plain (plain_of_decoded read), same]
  · rintro ⟨_, encoded⟩
    exact decodeUtf8_encodeUtf8 encoded

/-! ## Pieces of text -/

/-- The bytes are UTF-8 text. -/
def IsUtf8 (b : Bytes) : Prop := ∃ s, decodeUtf8 false b = .ok s

/-- No character goes on in these bytes. -/
def BeginsChar (b : Bytes) : Prop := ∀ x, b.head? = some x → isContinuation x = false

theorem low_of_all {a : Bytes} (all : a.all (fun x => decide (x.toNat < 0x80)) = true) :
    ∀ x ∈ a, x.toNat < 0x80 := by
  simpa using all

theorem isUtf8_ascii {a : Bytes} (low : ∀ x ∈ a, x.toNat < 0x80) : IsUtf8 a :=
  ⟨_, decodeUtf8_ascii false low⟩

theorem isUtf8_encodePass {s : Str} (plain : ∀ c ∈ s, isSurrogate c.val = false) :
    IsUtf8 (encodePass s) :=
  ⟨s, decodeUtf8_encodePass fun c member => .inr (plain c member)⟩

theorem isUtf8_append_left {a b : Bytes} (text : IsUtf8 a) : IsUtf8 (a ++ b) ↔ IsUtf8 b := by
  obtain ⟨s, read⟩ := text
  rw [IsUtf8, IsUtf8, decodeUtf8_append read]
  cases decodeUtf8 false b with
  | error e => simp [Except.map]
  | ok r => simp [Except.map]

theorem isUtf8_append {a b : Bytes} (boundary : BeginsChar b) :
    IsUtf8 (a ++ b) ↔ IsUtf8 a ∧ IsUtf8 b := by
  cases read : decodeUtf8 false a with
  | error e =>
      have broken := decodeUtf8_broken read boundary
      constructor
      · rintro ⟨s, whole⟩
        rw [broken] at whole
        cases whole
      · rintro ⟨⟨s, whole⟩, _⟩
        rw [read] at whole
        cases whole
  | ok s => rw [isUtf8_append_left ⟨s, read⟩, and_iff_right ⟨s, read⟩]

theorem beginsChar_encodePass (s : Str) : BeginsChar (encodePass s) := by
  cases s with
  | nil => simp [BeginsChar, encodePass]
  | cons c s =>
      have bound := c.isLt
      intro x first
      rw [encodePass, List.flatMap_cons] at first
      simp only [encodeCodePoint] at first
      split_ifs at first
      all_goals
        cases first
        rw [isContinuation, toNat_ofNat (by omega), Bool.and_eq_false_iff, decide_eq_false_iff_not,
          decide_eq_false_iff_not]
        omega

theorem beginsChar_append {a b : Bytes} (first : BeginsChar a) (second : BeginsChar b) :
    BeginsChar (a ++ b) := by
  cases a with
  | nil => exact second
  | cons x a => exact first

theorem isUtf8_of_encoded {b b' : Bytes} {s : Str} (read : decodeUtf8 true b = .ok s)
    (encoded : encodeUtf8 s = .ok b') : IsUtf8 b := by
  have back := decodeUtf8_encodeUtf8 encoded
  rw [← encodePass_of_decoded back, encodePass_of_decoded read] at back
  exact ⟨s, back⟩

/-- Text that is decoded leniently and encoded again is UTF-8. -/
theorem isUtf8_iff {b : Bytes} :
    IsUtf8 b ↔ ∃ s, decodeUtf8 true b = .ok s ∧ encodeUtf8 s = .ok b := by
  simp only [IsUtf8, decodeUtf8_strict_iff]

end MockAmqp
