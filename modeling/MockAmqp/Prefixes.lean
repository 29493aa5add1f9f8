import Mathlib.Data.List.TakeWhile
import MockAmqp.Json
import MockAmqp.Text

/-!
# JSON texts and what follows them

A scanner that has found the end of what it reads finds the same in every longer text. A number
also ends where the text does, so of numbers this holds only when something stops them, as a
comma or a bracket does.
-/

namespace MockAmqp
namespace Json

/-- What the first scanner reads, the second one reads whatever follows. -/
def Extends {α : Type} (scan scan' : Str → Option (α × Str)) : Prop :=
  ∀ s v rest, scan s = some (v, rest) → ∀ t, scan' (s ++ t) = some (v, rest ++ t)

/-! ## Strings -/

theorem hex4_extends : Extends hex4 hex4 := by
  intro s n rest read t
  unfold hex4 at read
  split at read
  · next a b c d after =>
      simp only [Option.bind_eq_bind, Option.bind_eq_some_iff] at read
      obtain ⟨a', ha, b', hb, c', hc, d', hd, made⟩ := read
      cases made
      simp only [List.cons_append, hex4, ha, hb, hc, hd]
      rfl
  · cases read

theorem lowSurrogate_extends : Extends lowSurrogate lowSurrogate := by
  intro s n rest read t
  unfold lowSurrogate at read
  split at read
  · next a b after =>
      split at read
      · next marked =>
          split at read
          · next n' rest' low =>
              split at read
              · next inRange =>
                  cases read
                  simp only [List.cons_append, lowSurrogate, if_pos marked,
                    hex4_extends _ _ _ low t, if_pos inRange]
              · cases read
          · cases read
      · cases read
  · cases read

theorem isChar_ne {c : CodePoint} {ch ch' : Char} (is : isChar c ch = true)
    (other : ch.toNat ≠ ch'.toNat) : isChar c ch' = false := by
  unfold isChar at *
  simp only [decide_eq_true_eq, decide_eq_false_iff_not] at *
  omega

/-- A text that goes on to a closing quote does not begin with half an escape. -/
theorem lowSurrogate_closed {s : Str} {fuel : Nat} {x : Str × Str}
    (closed : scanString fuel s = some x) (unpaired : lowSurrogate s = none) (t : Str) :
    lowSurrogate (s ++ t) = none := by
  cases fuel with
  | zero => cases closed
  | succ fuel =>
      match s with
      | [] => cases closed
      | [a] =>
          have plain : isChar a '\\' = false := by
            cases escaped : isChar a '\\' with
            | false => rfl
            | true =>
                have quote := isChar_ne escaped (show '\\'.toNat ≠ '"'.toNat by decide)
                simp [scanString, quote, escaped, escape] at closed
          cases t with
          | nil => exact unpaired
          | cons b rest => simp [lowSurrogate, plain]
      | a :: b :: rest =>
          by_cases marked : isChar a '\\' = true ∧ isChar b 'u' = true
          · have quote := isChar_ne marked.1 (show '\\'.toNat ≠ '"'.toNat by decide)
            simp only [lowSurrogate, if_pos marked] at unpaired
            simp only [List.cons_append, lowSurrogate, if_pos marked]
            cases digits : hex4 rest with
            | none =>
                have stuck : escape (b :: rest) = none := by
                  have u := marked.2
                  simp [escape, digits, isChar_ne u, u]
                simp [scanString, quote, marked.1, stuck] at closed
            | some read =>
                obtain ⟨n, after⟩ := read
                rw [hex4_extends _ _ _ digits t]
                rw [digits] at unpaired
                dsimp only at unpaired ⊢
                split at unpaired
                · cases unpaired
                · next out => rw [if_neg out]
          · simp only [List.cons_append, lowSurrogate, if_neg marked]

/-- The character that a short escape stands for. -/
theorem escape_short {a : CodePoint} (short : isChar a 'u' = false) (after : Str) :
    escape (a :: after) = (escape [a]).map fun read => (read.1, after) := by
  simp only [escape, short]
  split_ifs <;> first | rfl | contradiction

theorem escape_unit {a : CodePoint} (unit : isChar a 'u' = true) (after : Str) :
    escape (a :: after) =
      match hex4 after with
      | none => none
      | some (high, rest) =>
          if 0xD800 ≤ high ∧ high ≤ 0xDBFF then
            match lowSurrogate rest with
            | some (low, rest) =>
                some (Fin.ofNat _ (0x10000 + (high - 0xD800) * 1024 + (low - 0xDC00)), rest)
            | none => some (Fin.ofNat _ high, rest)
          else some (Fin.ofNat _ high, rest) := by
  have other : isChar a '"' = false ∧ isChar a '\\' = false ∧ isChar a '/' = false ∧
      isChar a 'b' = false ∧ isChar a 'f' = false ∧ isChar a 'n' = false ∧
      isChar a 'r' = false ∧ isChar a 't' = false := by
    refine ⟨?_, ?_, ?_, ?_, ?_, ?_, ?_, ?_⟩ <;> exact isChar_ne unit (by decide)
  obtain ⟨quote, backslash, slash, b, f, n, r, t⟩ := other
  cases units : hex4 after with
  | none => simp only [escape, unit, quote, backslash, slash, b, f, n, r, t, units,
      Bool.false_eq_true, or_self, if_false, if_true]
  | some found =>
      obtain ⟨high, rest⟩ := found
      cases pair : lowSurrogate rest with
      | none => simp only [escape, unit, quote, backslash, slash, b, f, n, r, t, units, pair,
          Bool.false_eq_true, or_self, if_false, if_true]
      | some paired => simp only [escape, unit, quote, backslash, slash, b, f, n, r, t, units,
          pair, Bool.false_eq_true, or_self, if_false, if_true]

theorem escape_append {s rest : Str} {c : CodePoint} {fuel : Nat} {x : Str × Str}
    (read : escape s = some (c, rest)) (closed : scanString fuel rest = some x) (t : Str) :
    escape (s ++ t) = some (c, rest ++ t) := by
  cases s with
  | nil => cases read
  | cons a after =>
      rw [List.cons_append]
      cases unit : isChar a 'u' with
      | false =>
          rw [escape_short unit] at read ⊢
          obtain ⟨⟨c', none⟩, one, same⟩ := Option.map_eq_some_iff.mp read
          cases same
          rw [one]
          rfl
      | true =>
          rw [escape_unit unit] at read ⊢
          cases digits : hex4 after with
          | none =>
              rw [digits] at read
              cases read
          | some found =>
              obtain ⟨high, behind⟩ := found
              rw [hex4_extends _ _ _ digits t]
              rw [digits] at read
              dsimp only at read ⊢
              split at read
              · next surrogate =>
                  rw [if_pos surrogate]
                  cases pair : lowSurrogate behind with
                  | some paired =>
                      obtain ⟨low, last⟩ := paired
                      rw [pair] at read
                      obtain ⟨rfl, rfl⟩ := Prod.mk.inj (Option.some.inj read)
                      rw [lowSurrogate_extends _ _ _ pair t]
                  | none =>
                      rw [pair] at read
                      obtain ⟨rfl, rfl⟩ := Prod.mk.inj (Option.some.inj read)
                      rw [lowSurrogate_closed closed pair t]
              · next plain =>
                  obtain ⟨rfl, rfl⟩ := Prod.mk.inj (Option.some.inj read)
                  rw [if_neg plain]

theorem scanString_extends {fuel more : Nat} (enough : fuel ≤ more) :
    Extends (scanString fuel) (scanString more) := by
  intro s chars rest read t
  induction fuel generalizing more s chars rest with
  | zero => cases read
  | succ fuel ih =>
      obtain ⟨more, rfl⟩ : ∃ n, more = n + 1 := ⟨more - 1, by omega⟩
      have less : fuel ≤ more := by omega
      cases s with
      | nil => cases read
      | cons c after =>
          simp only [List.cons_append, scanString] at read ⊢
          split at read
          · next quote =>
              cases read
              rw [if_pos quote]
          · next inside =>
              rw [if_neg inside]
              split at read
              · next escaped =>
                  simp only [Option.bind_eq_bind, Option.bind_eq_some_iff] at read
                  obtain ⟨⟨e, behind⟩, one, ⟨others, last⟩, tail, made⟩ := read
                  cases made
                  rw [if_pos escaped, escape_append one tail t]
                  have rest := ih less behind others last tail
                  simp only [Option.bind_eq_bind, Option.bind_some, rest]
                  rfl
              · next plain =>
                  rw [if_neg plain]
                  split at read
                  · cases read
                  · next printable =>
                      rw [if_neg printable]
                      simp only [Option.bind_eq_bind, Option.bind_eq_some_iff] at read
                      obtain ⟨⟨others, last⟩, tail, made⟩ := read
                      cases made
                      have rest := ih less after others last tail
                      simp only [Option.bind_eq_bind, Option.bind_some, rest]
                      rfl

/-! ## Numbers -/

/-- The text begins with something that no number goes on with. -/
def Stops : Str → Prop
  | [] => False
  | c :: _ => digit c = none ∧ isChar c '.' = false ∧ isChar c 'e' = false ∧ isChar c 'E' = false

theorem digitsOf_append {s rest : Str} {digits : List Nat} (read : digitsOf s = (digits, rest))
    (more : rest ≠ []) (t : Str) : digitsOf (s ++ t) = (digits, rest ++ t) := by
  cases read
  unfold digitsOf
  have ended : (s.dropWhile fun c => (digit c).isSome).isEmpty = false := by simpa using more
  have shorter : (s.takeWhile fun c => (digit c).isSome).length ≠ s.length := by
    intro all
    have length := congrArg List.length
      (List.takeWhile_append_dropWhile (p := fun c => (digit c).isSome) (l := s))
    rw [List.length_append, all] at length
    exact more (List.length_eq_zero_iff.mp (by omega))
  rw [List.dropWhile_append, ended, List.takeWhile_append, if_neg shorter]
  rfl

theorem fraction_append {s rest : Str} {digits : List Nat} {c : CodePoint}
    (read : fraction s = (digits, c :: rest)) (stops : isChar c '.' = false) (t : Str) :
    fraction (s ++ t) = (digits, c :: rest ++ t) := by
  cases s with
  | nil => cases read
  | cons a after =>
      simp only [List.cons_append, fraction] at read ⊢
      split at read
      · next point =>
          have all : digitsOf (after ++ t) = (digits, c :: rest ++ t) := digitsOf_append read (by simp) t
          have found : (digitsOf (after ++ t)).1 ≠ [] := by
            rw [all]
            rw [read] at point
            exact point.2
          rw [if_pos ⟨point.1, found⟩, all]
          rfl
      · next whole =>
          cases read
          rw [if_neg (by simp [stops])]

/-- The digits of an exponent, behind its sign. -/
theorem digits_append (value : List Nat → Int) {digits lone rest : Str} {e : Option Int}
    (read : (if (digitsOf digits).1 = [] then (none, lone)
      else (some (value (digitsOf digits).1), (digitsOf digits).2)) = (e, rest))
    (exponent : (e, rest) ≠ (none, lone)) (more : rest ≠ []) (t : Str) :
    (if (digitsOf (digits ++ t)).1 = [] then (none, lone ++ t)
      else (some (value (digitsOf (digits ++ t)).1), (digitsOf (digits ++ t)).2)) =
      (e, rest ++ t) := by
  split at read
  · exact absurd read.symm exponent
  · next found =>
      cases read
      have longer : digitsOf (digits ++ t) = ((digitsOf digits).1, (digitsOf digits).2 ++ t) :=
        digitsOf_append rfl more t
      rw [longer, if_neg found]

theorem exponent_append {s rest : Str} {e : Option Int} (read : exponent s = (e, rest))
    (stops : Stops rest) (t : Str) : exponent (s ++ t) = (e, rest ++ t) := by
  have more : rest ≠ [] := by
    rintro rfl
    cases stops
  cases s with
  | nil =>
      cases read
      cases stops
  | cons c after =>
      by_cases marked : isChar c 'e' = true ∨ isChar c 'E' = true
      · have number : (e, rest) ≠ (none, c :: after) := by
          intro same
          cases same
          rcases marked with small | capital
          · rw [stops.2.2.1] at small
            cases small
          · rw [stops.2.2.2] at capital
            cases capital
        cases after with
        | nil =>
            simp only [exponent, if_pos marked] at read
            exact absurd read.symm number
        | cons sign digits =>
            simp only [List.cons_append, exponent, if_pos marked] at read ⊢
            split at read
            · next minus =>
                rw [if_pos minus]
                exact digits_append (fun ds => -(ofDigits ds : Int)) read number more t
            · next unsigned =>
                rw [if_neg unsigned]
                split at read
                · next plus =>
                    rw [if_pos plus]
                    exact digits_append (fun ds => (ofDigits ds : Int)) read number more t
                · next none =>
                    rw [if_neg none]
                    exact digits_append (fun ds => (ofDigits ds : Int)) read number more t
      · simp only [List.cons_append, exponent, if_neg marked] at read ⊢
        cases read
        rfl

theorem digit_letter {c : CodePoint} {ch : Char} (letter : isChar c ch = true)
    (outside : ch.toNat < 0x30 ∨ 0x39 < ch.toNat) : digit c = none := by
  unfold isChar at letter
  unfold digit
  have val : c.val = ch.toNat := of_decide_eq_true letter
  rw [if_neg (by omega)]

/-- Only an exponent or a stop follows the digits of a number. -/
theorem exponent_begins {s rest : Str} {e : Option Int} (read : exponent s = (e, rest))
    (stops : Stops rest) : ∃ c after, s = c :: after ∧ digit c = none ∧ isChar c '.' = false := by
  cases s with
  | nil =>
      cases read
      cases stops
  | cons c after =>
      refine ⟨c, after, rfl, ?_⟩
      by_cases marked : isChar c 'e' = true ∨ isChar c 'E' = true
      · rcases marked with small | capital
        · exact ⟨digit_letter small (by decide), isChar_ne small (by decide)⟩
        · exact ⟨digit_letter capital (by decide), isChar_ne capital (by decide)⟩
      · simp only [exponent, if_neg marked] at read
        cases read
        exact ⟨stops.1, stops.2.1⟩

/-- The digits before the point of a number. -/
theorem fraction_begins {s rest : Str} {digits : List Nat} (read : fraction s = (digits, rest))
    (more : rest ≠ []) : s ≠ [] := by
  rintro rfl
  cases read
  exact more rfl

theorem leading_append {c : CodePoint} {after behind : Str} {whole : List Nat}
    (read : (if isChar c '0' then ([0], after) else digitsOf (c :: after)) = (whole, behind))
    (more : behind ≠ []) (t : Str) :
    (if isChar c '0' then ([0], after ++ t) else digitsOf (c :: (after ++ t))) =
      (whole, behind ++ t) := by
  cases zero : isChar c '0' with
  | true =>
      simp only [zero, if_true] at read ⊢
      cases read
      rfl
  | false =>
      simp only [zero, Bool.false_eq_true, if_false] at read ⊢
      exact digitsOf_append read more t

theorem scanUnsigned_append {negative : Bool} {s rest : Str} {v : Val}
    (read : scanUnsigned negative s = some (v, rest)) (stops : Stops rest) (t : Str) :
    scanUnsigned negative (s ++ t) = some (v, rest ++ t) := by
  cases s with
  | nil => cases read
  | cons c after =>
      simp only [List.cons_append, scanUnsigned] at read ⊢
      generalize first : (if isChar c '0' = true then ([0], after) else digitsOf (c :: after)) =
        leading at read
      obtain ⟨whole, behind⟩ := leading
      cases second : fraction behind with
      | mk frac middle =>
          cases third : exponent middle with
          | mk exp last =>
              simp only [second, third] at read
              split at read
              · cases read
              · next number =>
                  have same : last = rest := by
                    split at read
                    · cases read
                      rfl
                    · cases read
                      rfl
                  subst same
                  obtain ⟨m, ms, rfl, _, point⟩ := exponent_begins third stops
                  have more : behind ≠ [] := fraction_begins second (by simp)
                  simp only [leading_append first more t, fraction_append second point t,
                    exponent_append third stops t, if_neg number]
                  split at read
                  · next integer =>
                      cases read
                      rw [if_pos integer]
                  · next float =>
                      cases read
                      rw [if_neg float]

theorem scanUnsigned_number {negative : Bool} {s rest : Str} {v : Val}
    (read : scanUnsigned negative s = some (v, rest)) : ¬ ∃ entries, v = .dict entries := by
  rintro ⟨entries, rfl⟩
  unfold scanUnsigned at read
  dsimp only at read
  split_ifs at read <;> cases read

/-- A number begins with a digit. -/
theorem scanUnsigned_begins {negative : Bool} {s : Str} {x : Val × Str}
    (read : scanUnsigned negative s = some x) :
    ∃ c after, s = c :: after ∧ (digit c).isSome = true := by
  cases s with
  | nil => cases read
  | cons c after =>
      refine ⟨c, after, rfl, ?_⟩
      cases known : digit c with
      | some d => rfl
      | none =>
          have zero : isChar c '0' = false := by
            cases z : isChar c '0' with
            | false => rfl
            | true =>
                have val : c.val = '0'.toNat := of_decide_eq_true z
                unfold digit at known
                rw [val] at known
                cases known
          have nothing : (digitsOf (c :: after)).1 = [] := by simp [digitsOf, known]
          simp only [scanUnsigned, zero, Bool.false_eq_true, if_false, nothing, if_true] at read
          cases read

/-! ## Words -/

theorem length_str (word : String) : (str word).length = word.length := by
  rw [str, List.length_map, String.length_toList]

theorem afterWord_eq {word : String} {s rest : Str} (read : afterWord word s = some rest) :
    s = str word ++ rest := by
  unfold afterWord at read
  split at read
  · next begins =>
      cases read
      obtain ⟨after, rfl⟩ := List.isPrefixOf_iff_prefix.mp begins
      rw [← length_str, List.drop_left]
  · cases read

theorem afterWord_self (word : String) (rest : Str) : afterWord word (str word ++ rest) = some rest := by
  unfold afterWord
  rw [if_pos (List.isPrefixOf_iff_prefix.mpr (List.prefix_append _ _)), ← length_str,
    List.drop_left]

/-- A word that has another letter somewhere. -/
theorem afterWord_apart (word : String) (i : Nat) {a c : CodePoint} {s : Str}
    (letter : (str word)[i]? = some a) (found : s[i]? = some c) (apart : a ≠ c) :
    afterWord word s = none := by
  unfold afterWord
  refine if_neg fun begins => ?_
  obtain ⟨rest, rfl⟩ := List.isPrefixOf_iff_prefix.mp begins
  obtain ⟨bound, _⟩ := List.getElem?_eq_some_iff.mp letter
  rw [List.getElem?_append_left bound, letter] at found
  exact apart (Option.some.inj found)

/-- Two words with different first letters. -/
theorem afterWord_other (word other : String) {a c : CodePoint} (letter : (str word)[0]? = some a)
    (first : (str other)[0]? = some c) (apart : a ≠ c) (rest : Str) :
    afterWord word (str other ++ rest) = none := by
  obtain ⟨bound, _⟩ := List.getElem?_eq_some_iff.mp first
  exact afterWord_apart word 0 letter ((List.getElem?_append_left bound).trans first) apart

theorem scanWord_extends : Extends scanWord scanWord := by
  intro s v rest read t
  unfold scanWord at read
  split at read
  · next word =>
      cases read
      rw [afterWord_eq word, List.append_assoc, scanWord, afterWord_self]
  · next word _ =>
      cases read
      rw [afterWord_eq word, List.append_assoc, scanWord, afterWord_self,
        afterWord_other "null" "true" rfl rfl (by decide)]
  · next word _ _ =>
      cases read
      rw [afterWord_eq word, List.append_assoc, scanWord, afterWord_self,
        afterWord_other "null" "false" rfl rfl (by decide),
        afterWord_other "true" "false" rfl rfl (by decide)]
  · next word _ _ _ =>
      cases read
      rw [afterWord_eq word, List.append_assoc, scanWord, afterWord_self,
        afterWord_other "null" "NaN" rfl rfl (by decide),
        afterWord_other "true" "NaN" rfl rfl (by decide),
        afterWord_other "false" "NaN" rfl rfl (by decide)]
  · next word _ _ _ _ =>
      cases read
      rw [afterWord_eq word, List.append_assoc, scanWord, afterWord_self,
        afterWord_other "null" "Infinity" rfl rfl (by decide),
        afterWord_other "true" "Infinity" rfl rfl (by decide),
        afterWord_other "false" "Infinity" rfl rfl (by decide),
        afterWord_other "NaN" "Infinity" rfl rfl (by decide)]
  · next word _ _ _ _ _ =>
      cases read
      rw [afterWord_eq word, List.append_assoc, scanWord, afterWord_self,
        afterWord_other "null" "-Infinity" rfl rfl (by decide),
        afterWord_other "true" "-Infinity" rfl rfl (by decide),
        afterWord_other "false" "-Infinity" rfl rfl (by decide),
        afterWord_other "NaN" "-Infinity" rfl rfl (by decide),
        afterWord_other "Infinity" "-Infinity" rfl rfl (by decide)]
  · cases read

theorem digit_apart {a c : CodePoint} (known : (digit c).isSome = true) (letter : digit a = none) :
    a ≠ c := by
  rintro rfl
  rw [letter] at known
  cases known

/-- No word begins with a digit. -/
theorem scanWord_digit {c : CodePoint} (known : (digit c).isSome = true) (after : Str) :
    scanWord (c :: after) = none := by
  unfold scanWord
  rw [afterWord_apart "null" 0 rfl rfl (digit_apart known (by decide)),
    afterWord_apart "true" 0 rfl rfl (digit_apart known (by decide)),
    afterWord_apart "false" 0 rfl rfl (digit_apart known (by decide)),
    afterWord_apart "NaN" 0 rfl rfl (digit_apart known (by decide)),
    afterWord_apart "Infinity" 0 rfl rfl (digit_apart known (by decide)),
    afterWord_apart "-Infinity" 0 rfl rfl (digit_apart known (by decide))]

theorem isChar_apart {a c : CodePoint} {ch : Char} (is : isChar c ch = true)
    (other : isChar a ch = false) : a ≠ c := by
  rintro rfl
  rw [is] at other
  cases other

/-- No word begins with a minus sign and a digit. -/
theorem scanWord_negative {c d : CodePoint} (minus : isChar c '-' = true)
    (known : (digit d).isSome = true) (after : Str) : scanWord (c :: d :: after) = none := by
  unfold scanWord
  rw [afterWord_apart "null" 0 rfl rfl (isChar_apart minus (by decide)),
    afterWord_apart "true" 0 rfl rfl (isChar_apart minus (by decide)),
    afterWord_apart "false" 0 rfl rfl (isChar_apart minus (by decide)),
    afterWord_apart "NaN" 0 rfl rfl (isChar_apart minus (by decide)),
    afterWord_apart "Infinity" 0 rfl rfl (isChar_apart minus (by decide)),
    afterWord_apart "-Infinity" 1 rfl rfl (digit_apart known (by decide))]

/-! ## Values -/

theorem skipBlanks_append {s : Str} (more : skipBlanks s ≠ []) (t : Str) :
    skipBlanks (s ++ t) = skipBlanks s ++ t := by
  have ended : (s.dropWhile isBlank).isEmpty = false := by
    cases behind : s.dropWhile isBlank with
    | nil => exact absurd behind more
    | cons c rest => rfl
  unfold skipBlanks
  rw [List.dropWhile_append, ended]
  rfl

theorem stops_of_isChar {c : CodePoint} {ch : Char} (is : isChar c ch = true)
    (apart : (ch.toNat < 0x30 ∨ 0x39 < ch.toNat) ∧ ch.toNat ≠ '.'.toNat ∧ ch.toNat ≠ 'e'.toNat ∧
      ch.toNat ≠ 'E'.toNat) (rest : Str) : Stops (c :: rest) :=
  ⟨digit_letter is apart.1, isChar_ne is apart.2.1, isChar_ne is apart.2.2.1,
    isChar_ne is apart.2.2.2⟩

/-- A number stops at the blanks and the punctuation behind it. -/
theorem stops_before {s rest : Str} {c : CodePoint} (behind : skipBlanks s = c :: rest)
    (stops : Stops (c :: rest)) : Stops s := by
  cases s with
  | nil => cases behind
  | cons a after =>
      cases blank : isBlank a with
      | false =>
          have same : skipBlanks (a :: after) = a :: after :=
            List.dropWhile_cons_of_neg (by simp [blank])
          rw [same] at behind
          rwa [behind]
      | true =>
          have space : isChar a ' ' = true ∨ isChar a '\t' = true ∨ isChar a '\n' = true ∨
              isChar a '\r' = true := by
            unfold isBlank at blank
            unfold isChar
            simp only [Bool.or_eq_true, decide_eq_true_eq] at blank ⊢
            have values : ' '.toNat = 0x20 ∧ '\t'.toNat = 0x09 ∧ '\n'.toNat = 0x0A ∧
                '\r'.toNat = 0x0D := by decide
            omega
          rcases space with is | is | is | is
          · exact stops_of_isChar is (by decide) after
          · exact stops_of_isChar is (by decide) after
          · exact stops_of_isChar is (by decide) after
          · exact stops_of_isChar is (by decide) after

theorem scanString_longer {s rest chars : Str} (read : scanString s.length s = some (chars, rest))
    (t : Str) : scanString (s ++ t).length (s ++ t) = some (chars, rest ++ t) :=
  scanString_extends (by simp) _ _ _ read t

/-- A value is read in a longer text as in the text itself, when something stops it. -/
def Reads (fuel more : Nat) : Prop :=
  ∀ s v rest, scanValue fuel s = some (v, rest) → (Stops rest ∨ ∃ entries, v = .dict entries) →
    ∀ t, scanValue more (s ++ t) = some (v, rest ++ t)

section
variable {fuel more : Nat}

/-- A value that is followed by a comma or a bracket. -/
theorem Reads.punctuated (reads : Reads fuel more) {s rest after : Str} {v : Val} {c : CodePoint}
    (read : scanValue fuel s = some (v, rest)) (behind : skipBlanks rest = c :: after)
    (stops : Stops (c :: after)) (t : Str) : scanValue more (s ++ t) = some (v, rest ++ t) ∧
      skipBlanks (rest ++ t) = c :: (after ++ t) := by
  constructor
  · exact reads s v rest read (.inl (stops_before behind stops)) t
  · rw [skipBlanks_append (by simp [behind]), behind]
    rfl

theorem scanValue_nonempty {s : Str} {x : Val × Str} (read : scanValue fuel s = some x) :
    s ≠ [] := by
  rintro rfl
  cases fuel <;> simp [scanValue] at read

theorem scanMembers_nonempty {s : Str} {entries : List (Str × Val)} {x : Val × Str}
    (read : scanMembers fuel s entries = some x) : s ≠ [] := by
  rintro rfl
  cases fuel <;> simp [scanMembers] at read

theorem scanElements_nonempty {s : Str} {items : List Val} {x : Val × Str}
    (read : scanElements fuel s items = some x) : s ≠ [] := by
  rintro rfl
  cases fuel <;> simp [scanElements] at read

theorem scanMembers_extends (value : Reads fuel more)
    (members : ∀ entries, Extends (fun s => scanMembers fuel s entries)
      fun s => scanMembers more s entries) (entries : List (Str × Val)) :
    Extends (fun s => scanMembers (fuel + 1) s entries)
      fun s => scanMembers (more + 1) s entries := by
  intro s v rest read t
  cases s with
  | nil => simp [scanMembers] at read
  | cons c after =>
      simp only [List.cons_append, scanMembers] at read ⊢
      split at read
      · cases read
      · next quote =>
          rw [if_neg quote]
          simp only [Option.bind_eq_bind, Option.bind_eq_some_iff] at read
          obtain ⟨⟨name, afterName⟩, named, read⟩ := read
          rw [scanString_longer named t]
          simp only [Option.bind_eq_bind, Option.bind_some]
          dsimp only at read
          cases colon : skipBlanks afterName with
          | nil =>
              rw [colon] at read
              cases read
          | cons c after =>
              rw [skipBlanks_append (by simp [colon]), colon]
              rw [colon] at read
              simp only [List.cons_append] at read ⊢
              split at read
              · cases read
              · next separated =>
                  rw [if_neg separated]
                  simp only [Option.bind_eq_some_iff] at read
                  obtain ⟨⟨x, afterValue⟩, found, read⟩ := read
                  rw [skipBlanks_append (scanValue_nonempty found)]
                  dsimp only at read
                  cases ends : skipBlanks afterValue with
                  | nil =>
                      rw [ends] at read
                      cases read
                  | cons c after =>
                      rw [ends] at read
                      dsimp only at read
                      split at read
                      · next brace =>
                          cases read
                          obtain ⟨longer, behind⟩ := value.punctuated found ends
                            (stops_of_isChar brace (by decide) after) t
                          simp only [longer, Option.bind_some, behind, if_pos brace]
                      · next open' =>
                          split at read
                          · next comma =>
                              obtain ⟨longer, behind⟩ := value.punctuated found ends
                                (stops_of_isChar comma (by decide) after) t
                              have rest := members _ _ _ _ read t
                              simp only [longer, Option.bind_some, behind, if_neg open',
                                if_pos comma, skipBlanks_append (scanMembers_nonempty read), rest]
                          · cases read

theorem scanElements_extends (value : Reads fuel more)
    (elements : ∀ items, Extends (fun s => scanElements fuel s items)
      fun s => scanElements more s items) (items : List Val) :
    Extends (fun s => scanElements (fuel + 1) s items)
      fun s => scanElements (more + 1) s items := by
  intro s v rest read t
  cases s with
  | nil => simp [scanElements] at read
  | cons c after =>
      simp only [List.cons_append, scanElements, Option.bind_eq_bind,
        Option.bind_eq_some_iff] at read ⊢
      obtain ⟨⟨x, afterValue⟩, found, read⟩ := read
      dsimp only at read
      cases ends : skipBlanks afterValue with
      | nil =>
          rw [ends] at read
          cases read
      | cons c' after' =>
          rw [ends] at read
          dsimp only at read
          split at read
          · next bracket =>
              cases read
              obtain ⟨longer, behind⟩ := value.punctuated found ends
                (stops_of_isChar bracket (by decide) _) t
              refine ⟨(x, afterValue ++ t), longer, ?_⟩
              simp only [behind, if_pos bracket]
          · next open' =>
              split at read
              · next comma =>
                  obtain ⟨longer, behind⟩ := value.punctuated found ends
                    (stops_of_isChar comma (by decide) after') t
                  have rest := elements _ _ _ _ read t
                  refine ⟨(x, afterValue ++ t), longer, ?_⟩
                  simp only [behind, if_neg open', if_pos comma,
                    skipBlanks_append (scanElements_nonempty read), rest]
              · cases read

theorem scanValue_reads (members : ∀ entries, Extends (fun s => scanMembers fuel s entries)
      fun s => scanMembers more s entries)
    (elements : ∀ items, Extends (fun s => scanElements fuel s items)
      fun s => scanElements more s items) : Reads (fuel + 1) (more + 1) := by
  intro s v rest read stopped t
  cases s with
  | nil => simp [scanValue] at read
  | cons c after =>
      simp only [List.cons_append, scanValue] at read ⊢
      split at read
      · next quote =>
          rw [if_pos quote]
          simp only [Option.bind_eq_bind, Option.bind_eq_some_iff] at read
          obtain ⟨⟨chars, behind⟩, string, made⟩ := read
          cases made
          rw [scanString_longer string t]
          rfl
      · next other =>
          rw [if_neg other]
          split at read
          · next brace =>
              rw [if_pos brace]
              cases inside : skipBlanks after with
              | nil =>
                  rw [inside] at read
                  cases read
              | cons c' after' =>
                  rw [inside] at read
                  rw [skipBlanks_append (by simp [inside]), inside]
                  simp only [List.cons_append] at read ⊢
                  split at read
                  · next empty =>
                      cases read
                      rw [if_pos empty]
                  · next more' =>
                      rw [if_neg more']
                      exact members _ _ _ _ read t
          · next other =>
              rw [if_neg other]
              split at read
              · next bracket =>
                  rw [if_pos bracket]
                  cases inside : skipBlanks after with
                  | nil =>
                      rw [inside] at read
                      cases read
                  | cons c' after' =>
                      rw [inside] at read
                      rw [skipBlanks_append (by simp [inside]), inside]
                      simp only [List.cons_append] at read ⊢
                      split at read
                      · next empty =>
                          cases read
                          rw [if_pos empty]
                      · next more' =>
                          rw [if_neg more']
                          exact elements _ _ _ _ read t
              · next other =>
                  rw [if_neg other]
                  cases word : scanWord (c :: after) with
                  | some found =>
                      rw [word] at read
                      cases read
                      have longer := scanWord_extends _ _ _ word t
                      rw [List.cons_append] at longer
                      rw [longer]
                  | none =>
                      rw [word] at read
                      dsimp only at read
                      split at read
                      · next minus =>
                          have stops : Stops rest := stopped.resolve_right (scanUnsigned_number read)
                          obtain ⟨d, digits, rfl, known⟩ := scanUnsigned_begins read
                          have none := scanWord_negative minus known (digits ++ t)
                          have longer := scanUnsigned_append read stops t
                          rw [List.cons_append] at longer ⊢
                          rw [none, if_pos minus, longer]
                      · next plain =>
                          have stops : Stops rest := stopped.resolve_right (scanUnsigned_number read)
                          obtain ⟨d, digits, same, known⟩ := scanUnsigned_begins read
                          cases same
                          have none := scanWord_digit known (after ++ t)
                          have longer := scanUnsigned_append read stops t
                          rw [List.cons_append] at longer
                          rw [none, if_neg plain, longer]

/-- A scanner with more fuel reads the same in a longer text. -/
theorem scan_append (fuel : Nat) : ∀ more, fuel ≤ more → Reads fuel more ∧
    (∀ entries, Extends (fun s => scanMembers fuel s entries)
      fun s => scanMembers more s entries) ∧
    ∀ items, Extends (fun s => scanElements fuel s items) fun s => scanElements more s items := by
  induction fuel with
  | zero =>
      intro more _
      refine ⟨?_, ?_, ?_⟩
      · intro s v rest read
        simp [scanValue] at read
      · intro entries s v rest read
        simp [scanMembers] at read
      · intro items s v rest read
        simp [scanElements] at read
  | succ fuel ih =>
      intro more enough
      obtain ⟨more, rfl⟩ : ∃ n, more = n + 1 := ⟨more - 1, by omega⟩
      obtain ⟨value, members, elements⟩ := ih more (by omega)
      exact ⟨scanValue_reads members elements, scanMembers_extends value members,
        scanElements_extends value elements⟩

end

theorem blank_of_skipBlanks {s : Str} (skipped : skipBlanks s = []) : ∀ c ∈ s, isBlank c = true :=
  List.dropWhile_eq_nil_iff.mp skipped

end Json

/-- Nothing but blanks can follow an object. -/
theorem jsonLoads_append {s t : Str} {entries : List (Str × Val)} {v : Val}
    (read : jsonLoads s = .ok (.dict entries)) (longer : jsonLoads (s ++ t) = .ok v) :
    v = .dict entries ∧ ∀ c ∈ t, Json.isBlank c = true := by
  cases s with
  | nil => cases read
  | cons c after =>
      rw [List.cons_append] at longer
      unfold jsonLoads at read longer
      dsimp only at read longer
      split at read
      · cases read
      · next plain =>
          rw [if_neg plain] at longer
          cases found : Json.scanValue ((c :: after).length + 1) (Json.skipBlanks (c :: after)) with
          | none =>
              rw [found] at read
              cases read
          | some x =>
              obtain ⟨w, rest⟩ := x
              rw [found] at read
              dsimp only at read
              split at read
              · cases read
                have reads := (Json.scan_append ((c :: after).length + 1)
                  ((c :: (after ++ t)).length + 1) (by simp)).1 _ _ _ found (.inr ⟨entries, rfl⟩) t
                have start : Json.skipBlanks (c :: (after ++ t)) = Json.skipBlanks (c :: after) ++ t :=
                  Json.skipBlanks_append (Json.scanValue_nonempty found) t
                rw [start, reads] at longer
                dsimp only at longer
                split at longer
                · next ended =>
                    cases longer
                    refine ⟨rfl, fun a mem => ?_⟩
                    exact Json.blank_of_skipBlanks ended a (List.mem_append_right _ mem)
                · cases longer
              · cases read

theorem jsonLoads_blank {s : Str} (blank : ∀ c ∈ s, Json.isBlank c = true) :
    jsonLoads s = .error .valueError := by
  have nothing : Json.skipBlanks s = [] := List.dropWhile_eq_nil_iff.mpr blank
  cases s with
  | nil => rfl
  | cons c after =>
      unfold jsonLoads
      dsimp only
      split
      · rfl
      · rw [nothing]
        simp [Json.scanValue]

theorem Json.blank_low {c : CodePoint} (blank : Json.isBlank c = true) : c.val < 0x80 := by
  unfold Json.isBlank at blank
  simp only [Bool.or_eq_true, decide_eq_true_eq] at blank
  omega

end MockAmqp
