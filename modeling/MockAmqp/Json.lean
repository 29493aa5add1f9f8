import MockAmqp.Values

/-!
# JSON texts

`json.loads` on a text, with what Python accepts beside the standard: `NaN`, `Infinity`,
`-Infinity` and lone surrogates. A parser returns what it has read and the rest of the text, and
`none` where Python raises `JSONDecodeError`; every call reads at least one character, so a
fuel of the length of the text is enough.
-/

namespace MockAmqp
namespace Json

def isChar (c : CodePoint) (ch : Char) : Bool := c.val = ch.toNat

def isBlank (c : CodePoint) : Bool := c.val = 0x20 || c.val = 0x09 || c.val = 0x0A || c.val = 0x0D

def skipBlanks (s : Str) : Str := s.dropWhile isBlank

def digit (c : CodePoint) : Option Nat :=
  if 0x30 ≤ c.val ∧ c.val ≤ 0x39 then some (c.val - 0x30) else none

def hexDigit (c : CodePoint) : Option Nat :=
  if 0x30 ≤ c.val ∧ c.val ≤ 0x39 then some (c.val - 0x30)
  else if 0x41 ≤ c.val ∧ c.val ≤ 0x46 then some (c.val - 0x37)
  else if 0x61 ≤ c.val ∧ c.val ≤ 0x66 then some (c.val - 0x57)
  else none

/-! ## Strings -/

/-- The four digits of an escape of a UTF-16 unit. -/
def hex4 : Str → Option (Nat × Str)
  | a :: b :: c :: d :: rest => do
      let n := (← hexDigit a) * 4096 + (← hexDigit b) * 256 + (← hexDigit c) * 16 + (← hexDigit d)
      return (n, rest)
  | _ => none

/-- The low half of a surrogate pair, if one follows. -/
def lowSurrogate : Str → Option (Nat × Str)
  | a :: b :: rest =>
      if isChar a '\\' ∧ isChar b 'u' then
        match hex4 rest with
        | some (n, rest) => if 0xDC00 ≤ n ∧ n ≤ 0xDFFF then some (n, rest) else none
        | none => none
      else none
  | _ => none

/-- The character of an escape sequence, after the backslash. -/
def escape : Str → Option (CodePoint × Str)
  | [] => none
  | c :: rest =>
      if isChar c '"' ∨ isChar c '\\' ∨ isChar c '/' then some (c, rest)
      else if isChar c 'b' then some (8, rest)
      else if isChar c 'f' then some (12, rest)
      else if isChar c 'n' then some (10, rest)
      else if isChar c 'r' then some (13, rest)
      else if isChar c 't' then some (9, rest)
      else if isChar c 'u' then
        match hex4 rest with
        | none => none
        | some (high, rest) =>
            if 0xD800 ≤ high ∧ high ≤ 0xDBFF then
              match lowSurrogate rest with
              | some (low, rest) =>
                  some (Fin.ofNat _ (0x10000 + (high - 0xD800) * 1024 + (low - 0xDC00)), rest)
              | none => some (Fin.ofNat _ high, rest)
            else some (Fin.ofNat _ high, rest)
      else none

/-- The characters of a string up to its closing quote. -/
def scanString : Nat → Str → Option (Str × Str)
  | 0, _ | _, [] => none
  | fuel + 1, c :: rest =>
      if isChar c '"' then some ([], rest)
      else if isChar c '\\' then do
        let (e, rest) ← escape rest
        let (chars, rest) ← scanString fuel rest
        return (e :: chars, rest)
      else if c.val < 0x20 then none
      else do
        let (chars, rest) ← scanString fuel rest
        return (c :: chars, rest)

/-! ## Numbers -/

def digitsOf (s : Str) : List Nat × Str :=
  ((s.takeWhile fun c => (digit c).isSome).filterMap digit,
    s.dropWhile fun c => (digit c).isSome)

def ofDigits (digits : List Nat) : Nat := digits.foldl (fun n d => n * 10 + d) 0

/-- The bits of the double nearest to `m * 10 ^ e`, infinite on overflow. -/
def doubleOfDecimal (m : Nat) (e : Int) : Nat :=
  let infinity : Nat := 0x7FF * 2 ^ 52
  if m = 0 then 0
  else if 400 < e then infinity
  else if e + Nat.log2 m < -400 then 0
  else if 0 ≤ e then (floatBits 52 11 (m * 10 ^ e.toNat) 0).getD infinity
  else
    -- more bits than a double keeps, the last one standing for all that were cut off
    let scale : Nat := 10 ^ (-e).toNat
    let shift : Nat := Nat.log2 scale + 64
    let q := m * 2 ^ shift / scale
    let sticky := if m * 2 ^ shift % scale = 0 then 0 else 1
    (floatBits 52 11 (2 * q + sticky) (-(shift + 1 : Nat))).getD infinity

/-- The digits after a decimal point, none if there is none. -/
def fraction : Str → List Nat × Str
  | c :: rest =>
      if isChar c '.' ∧ (digitsOf rest).1 ≠ [] then digitsOf rest else ([], c :: rest)
  | [] => ([], [])

def exponent : Str → Option Int × Str
  | c :: rest =>
      if isChar c 'e' ∨ isChar c 'E' then
        let (negative, digits) := match rest with
          | sign :: digits =>
              if isChar sign '-' then (true, digits)
              else if isChar sign '+' then (false, digits)
              else (false, sign :: digits)
          | [] => (false, [])
        if (digitsOf digits).1 = [] then (none, c :: rest)
        else
          let n : Int := ofDigits (digitsOf digits).1
          (some (if negative then -n else n), (digitsOf digits).2)
      else (none, c :: rest)
  | [] => (none, [])

/-- `int(numstr)`, or `float(numstr)` when there is a fraction or an exponent. -/
def scanUnsigned (negative : Bool) (s : Str) : Option (Val × Str) :=
  let (whole, rest) := match s with
    | c :: rest => if isChar c '0' then ([0], rest) else digitsOf s
    | [] => ([], [])
  if whole = [] then none
  else
    let (frac, rest) := fraction rest
    let (exp, rest) := exponent rest
    if frac = [] ∧ exp = none then
      let n : Int := ofDigits whole
      some (.int (if negative then -n else n), rest)
    else
      let bits := doubleOfDecimal (ofDigits (whole ++ frac)) (exp.getD 0 - frac.length)
      some (.float (if negative then 2 ^ 63 + bits else bits), rest)

/-! ## Values -/

/-- The rest of the text after a given word. -/
def afterWord (word : String) (s : Str) : Option Str :=
  if (str word).isPrefixOf s then some (s.drop word.length) else none

def scanWord (s : Str) : Option (Val × Str) :=
  match afterWord "null" s, afterWord "true" s, afterWord "false" s, afterWord "NaN" s,
    afterWord "Infinity" s, afterWord "-Infinity" s with
  | some rest, _, _, _, _, _ => some (.none, rest)
  | _, some rest, _, _, _, _ => some (.bool true, rest)
  | _, _, some rest, _, _, _ => some (.bool false, rest)
  | _, _, _, some rest, _, _ => some (.float (0x7FF8 * 2 ^ 48), rest)
  | _, _, _, _, some rest, _ => some (.float (0x7FF * 2 ^ 52), rest)
  | _, _, _, _, _, some rest => some (.float (0xFFF * 2 ^ 52), rest)
  | _, _, _, _, _, _ => none

mutual

def scanValue : Nat → Str → Option (Val × Str)
  | 0, _ | _, [] => none
  | fuel + 1, c :: rest =>
      if isChar c '"' then do
        let (s, rest) ← scanString rest.length rest
        return (.str s, rest)
      else if isChar c '{' then
        match skipBlanks rest with
        | [] => none
        | c' :: rest' =>
            if isChar c' '}' then some (.dict [], rest')
            else scanMembers fuel (c' :: rest') []
      else if isChar c '[' then
        match skipBlanks rest with
        | [] => none
        | c' :: rest' =>
            if isChar c' ']' then some (.list [], rest')
            else scanElements fuel (c' :: rest') []
      else match scanWord (c :: rest) with
        | some r => some r
        | none =>
            if isChar c '-' then scanUnsigned true rest else scanUnsigned false (c :: rest)
termination_by structural n => n

/-- The members of an object, from the quote of a name on. -/
def scanMembers : Nat → Str → List (Str × Val) → Option (Val × Str)
  | 0, _, _ | _, [], _ => none
  | fuel + 1, c :: rest, entries =>
      if ¬ isChar c '"' then none
      else do
        let (name, rest) ← scanString rest.length rest
        match skipBlanks rest with
        | [] => none
        | c :: rest =>
            if ¬ isChar c ':' then none
            else do
              let (v, rest) ← scanValue fuel (skipBlanks rest)
              let entries := assocSet entries name v
              match skipBlanks rest with
              | [] => none
              | c :: rest =>
                  if isChar c '}' then some (.dict entries, rest)
                  else if isChar c ',' then scanMembers fuel (skipBlanks rest) entries
                  else none
termination_by structural n => n

def scanElements : Nat → Str → List Val → Option (Val × Str)
  | 0, _, _ | _, [], _ => none
  | fuel + 1, s, items => do
      let (v, rest) ← scanValue fuel s
      match skipBlanks rest with
      | [] => none
      | c :: rest =>
          if isChar c ']' then some (.list (items ++ [v]), rest)
          else if isChar c ',' then scanElements fuel (skipBlanks rest) (items ++ [v])
          else none
termination_by structural n => n

end

end Json

/-- `json.loads(s)` -/
def jsonLoads (s : Str) : Except PyError Val :=
  match s with
  | [] => .error .valueError
  | c :: _ =>
      -- a byte order mark is refused
      if c.val = 0xFEFF then .error .valueError
      else match Json.scanValue (s.length + 1) (Json.skipBlanks s) with
        | some (v, rest) => if Json.skipBlanks rest = [] then .ok v else .error .valueError
        | none => .error .valueError

end MockAmqp
