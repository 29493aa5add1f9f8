import Mathlib.Algebra.Field.Rat
import Mathlib.Tactic.FieldSimp
import Mathlib.Tactic.Ring
import MockAmqp.Lib.OrderedDict

/-!
# Python values

Byte strings, text with lone surrogates, floating point numbers as their bits, and the
dynamically typed values that travel through tables, headers and message bodies.
-/

namespace MockAmqp

abbrev Bytes := List UInt8

/-- A Python character: any code point, surrogates included. -/
abbrev CodePoint := Fin 0x110000

abbrev Str := List CodePoint

instance codePoint_neZero : NeZero 0x110000 := ⟨by decide⟩

instance str_lawfulBEq : LawfulBEq Str := inferInstance

/-- A text literal. -/
def str (s : String) : Str := s.toList.map fun c => Fin.ofNat 0x110000 c.toNat

/-- A byte string literal of ASCII characters. -/
def ascii (s : String) : Bytes := s.toList.map fun c => UInt8.ofNat c.toNat

/-- The exceptions the program can raise. `outOfFuel` is not one of Python's: it marks a
recursion bound of this model that is never reached. -/
inductive PyError where
  | structError
  | invalidFrameError (text : String)
  | frameSyntaxError (replyText : String)
  | keyError
  | indexError
  | typeError
  | valueError
  | attributeError
  | overflowError
  | unicodeDecodeError
  | unicodeEncodeError
  | nameError
  | localProtocolError
  | waitTimeout
  | outOfFuel
  deriving DecidableEq, Repr

/-- `buf[start:stop]`, which stops silently at the end of the buffer. -/
def slice (buf : Bytes) (start stop : Nat) : Bytes := (buf.drop start).take (stop - start)

/-- The number written in base 256, most significant byte first. -/
def beNat (b : Bytes) : Nat := b.foldl (fun n x => n * 256 + x.toNat) 0

/-- The last `width` digits of `n` in base 256, most significant first. -/
def beBytes : Nat → Nat → Bytes
  | 0, _ => []
  | width + 1, n => beBytes width (n / 256) ++ [UInt8.ofNat n]

@[simp] theorem length_beBytes (width n : Nat) : (beBytes width n).length = width := by
  induction width generalizing n with
  | zero => rfl
  | succ width ih => simp [beBytes, ih]

/-- `struct.unpack_from` of one unsigned big-endian field. -/
def unpackFrom (width : Nat) (buf : Bytes) (offset : Nat) : Except PyError Nat :=
  if offset + width ≤ buf.length then .ok (beNat (slice buf offset (offset + width)))
  else .error .structError

/-- The two's complement reading of a field of `width` bytes. -/
def toSigned (width n : Nat) : Int :=
  if n < 2 ^ (8 * width - 1) then n else (n : Int) - 2 ^ (8 * width)

/-- `struct.pack` of one unsigned big-endian field. -/
def packUnsigned (width : Nat) (v : Int) : Except PyError Bytes :=
  if 0 ≤ v ∧ v < 2 ^ (8 * width) then .ok (beBytes width v.toNat) else .error .structError

/-- `struct.pack` of one signed big-endian field. -/
def packSigned (width : Nat) (v : Int) : Except PyError Bytes :=
  if -2 ^ (8 * width - 1) ≤ v ∧ v < 2 ^ (8 * width - 1) then
    .ok (beBytes width (v % 2 ^ (8 * width)).toNat)
  else .error .structError

/-! ## UTF-8 -/

def isSurrogate (n : Nat) : Bool := 0xD800 ≤ n && n ≤ 0xDFFF

def encodeCodePoint (c : CodePoint) : Bytes :=
  let n := c.val
  if n < 0x80 then [UInt8.ofNat n]
  else if n < 0x800 then [UInt8.ofNat (0xC0 + n / 64), UInt8.ofNat (0x80 + n % 64)]
  else if n < 0x10000 then
    [UInt8.ofNat (0xE0 + n / 4096), UInt8.ofNat (0x80 + n / 64 % 64),
      UInt8.ofNat (0x80 + n % 64)]
  else
    [UInt8.ofNat (0xF0 + n / 262144), UInt8.ofNat (0x80 + n / 4096 % 64),
      UInt8.ofNat (0x80 + n / 64 % 64), UInt8.ofNat (0x80 + n % 64)]

/-- `encode('utf-8', 'surrogatepass')` -/
def encodePass (s : Str) : Bytes := s.flatMap encodeCodePoint

/-- `encode('utf-8')` -/
def encodeUtf8 (s : Str) : Except PyError Bytes :=
  if s.any (fun c => isSurrogate c.val) then .error .unicodeEncodeError else .ok (encodePass s)

def isContinuation (b : UInt8) : Bool := 0x80 ≤ b.toNat && b.toNat < 0xC0

/-- `decode('utf-8')`, or `decode('utf-8', 'surrogatepass')` when `pass` is set. -/
def decodeUtf8 (pass : Bool) : Bytes → Except PyError Str
  | [] => .ok []
  | b0 :: t0 =>
      if b0.toNat < 0x80 then (decodeUtf8 pass t0).map (Fin.ofNat _ b0.toNat :: ·)
      else match t0 with
        | [] => .error .unicodeDecodeError
        | b1 :: t1 =>
            if 0xC2 ≤ b0.toNat ∧ b0.toNat < 0xE0 ∧ isContinuation b1 then
              (decodeUtf8 pass t1).map
                (Fin.ofNat _ ((b0.toNat - 0xC0) * 64 + (b1.toNat - 0x80)) :: ·)
            else match t1 with
              | [] => .error .unicodeDecodeError
              | b2 :: t2 =>
                  let n : Nat := (b0.toNat - 0xE0) * 4096 + (b1.toNat - 0x80) * 64 + (b2.toNat - 0x80)
                  if 0xE0 ≤ b0.toNat ∧ b0.toNat < 0xF0 ∧ isContinuation b1 ∧ isContinuation b2
                      ∧ 0x800 ≤ n ∧ (pass ∨ ¬ isSurrogate n) then
                    (decodeUtf8 pass t2).map (Fin.ofNat _ n :: ·)
                  else match t2 with
                    | [] => .error .unicodeDecodeError
                    | b3 :: t3 =>
                        let n : Nat := (b0.toNat - 0xF0) * 262144 + (b1.toNat - 0x80) * 4096 +
                          (b2.toNat - 0x80) * 64 + (b3.toNat - 0x80)
                        if 0xF0 ≤ b0.toNat ∧ b0.toNat < 0xF5 ∧ isContinuation b1 ∧
                            isContinuation b2 ∧ isContinuation b3 ∧
                            0x10000 ≤ n ∧ n < 0x110000 then
                          (decodeUtf8 pass t3).map (Fin.ofNat _ n :: ·)
                        else .error .unicodeDecodeError

/-! ## Floating point numbers as bits -/

/-- `m * 2 ^ e` divided by `2 ^ k`, to the nearest integer and to even on a tie. -/
def shiftRound (m k : Nat) : Nat :=
  let q := m / 2 ^ k
  let r := 2 * (m % 2 ^ k)
  if r < 2 ^ k then q else if 2 ^ k < r then q + 1 else q + q % 2

/-- The bits of the number nearest to `m * 2 ^ e` in a binary format, `none` on overflow. -/
def floatBits (mantissa exponent m : Nat) (e : Int) : Option Nat :=
  if m = 0 then some 0
  else
    let bias : Int := 2 ^ (exponent - 1) - 1
    let q : Int := max (1 - bias - mantissa) (e + Nat.log2 m - mantissa)
    let n := if q ≤ e then m * 2 ^ (e - q).toNat else shiftRound m (q - e).toNat
    -- a number below 2 ^ mantissa is subnormal; rounding up carries into the exponent
    let bits := if n < 2 ^ mantissa then n
      else ((q + mantissa + bias).toNat - 1) * 2 ^ mantissa + n
    if bits < (2 ^ exponent - 1) * 2 ^ mantissa then some bits else none

/-- The double with the value of a single. -/
def doubleOfSingle (b : Nat) : Nat :=
  let sign : Nat := b / 2 ^ 31 * 2 ^ 63
  let e : Nat := b / 2 ^ 23 % 256
  let m : Nat := b % 2 ^ 23
  if e = 255 then sign + 0x7FF * 2 ^ 52 + m * 2 ^ 29
  else if e = 0 then sign + (floatBits 52 11 m (-149)).getD 0
  else sign + (floatBits 52 11 (m + 2 ^ 23) ((e : Int) - 150)).getD 0

/-- `pack('>f', v)` of a double, which raises when a finite number is too large. -/
def singleOfDouble (b : Nat) : Except PyError Nat :=
  let sign : Nat := b / 2 ^ 63 * 2 ^ 31
  let e : Nat := b / 2 ^ 52 % 2048
  let m : Nat := b % 2 ^ 52
  if e = 2047 then .ok (sign + 0xFF * 2 ^ 23 + m / 2 ^ 29)
  else
    let r := if e = 0 then floatBits 23 8 m (-1074)
      else floatBits 23 8 (m + 2 ^ 52) ((e : Int) - 1075)
    match r with
    | some bits => .ok (sign + bits)
    | none => .error .overflowError

/-- `int(v)` of a double drops the fraction; infinities and NaN raise. -/
def truncDouble (b : Nat) : Except PyError Int :=
  let e : Nat := b / 2 ^ 52 % 2048
  let m : Nat := b % 2 ^ 52
  if e = 2047 then .error (if m = 0 then .overflowError else .valueError)
  else
    let n : Nat := if e < 1023 then 0
      else if e ≤ 1075 then (m + 2 ^ 52) / 2 ^ (1075 - e) else (m + 2 ^ 52) * 2 ^ (e - 1075)
    .ok (if b < 2 ^ 63 then n else -n)

/-! ## Integers in text -/

/-- Where the runs of ten decimal digits start in Unicode. -/
def digitZeros : List Nat :=
  [0x30, 0x660, 0x6F0, 0x7C0, 0x966, 0x9E6, 0xA66, 0xAE6, 0xB66, 0xBE6, 0xC66, 0xCE6, 0xD66,
    0xDE6, 0xE50, 0xED0, 0xF20, 0x1040, 0x1090, 0x17E0, 0x1810, 0x1946, 0x19D0, 0x1A80, 0x1A90,
    0x1B50, 0x1BB0, 0x1C40, 0x1C50, 0xA620, 0xA8D0, 0xA900, 0xA9D0, 0xA9F0, 0xAA50, 0xABF0,
    0xFF10, 0x104A0, 0x10D30, 0x11066, 0x110F0, 0x11136, 0x111D0, 0x112F0, 0x11450, 0x114D0,
    0x11650, 0x116C0, 0x11730, 0x118E0, 0x11950, 0x11C50, 0x11D50, 0x11DA0, 0x16A60, 0x16B50,
    0x1D7CE, 0x1D7D8, 0x1D7E2, 0x1D7EC, 0x1D7F6, 0x1E140, 0x1E2F0, 0x1E950, 0x1FBF0]

def digitOf (c : CodePoint) : Option Nat :=
  (digitZeros.find? fun z => z ≤ c.val && c.val < z + 10).map (c.val - ·)

def isSpace (c : CodePoint) : Bool :=
  (9 ≤ c.val && c.val ≤ 13) || (28 ≤ c.val && c.val ≤ 32) ||
    (0x2000 ≤ c.val && c.val ≤ 0x200A) ||
    [0x85, 0xA0, 0x1680, 0x2028, 0x2029, 0x202F, 0x205F, 0x3000].contains c.val

/-- Digits with single underscores between them. -/
def parseDigits : Str → Option Nat → Option Nat
  | [], acc => acc
  | c :: rest, acc =>
      match digitOf c, acc with
      | some d, acc => parseDigits rest (some (acc.getD 0 * 10 + d))
      | none, some n =>
          match rest with
          | c' :: rest' =>
              if c.val = 95 then (digitOf c').bind fun d => parseDigits rest' (some (n * 10 + d))
              else none
          | [] => none
      | none, none => none

/-- `int(s)` -/
def intOfStr (s : Str) : Except PyError Int :=
  let core := ((s.dropWhile isSpace).reverse.dropWhile isSpace).reverse
  let signed : Option Int := match core with
    | c :: rest =>
        if c.val = 45 then (parseDigits rest none).map fun n => -(n : Int)
        else if c.val = 43 then (parseDigits rest none).map fun n => (n : Int)
        else (parseDigits core none).map fun n => (n : Int)
    | [] => none
  match signed with
  | some i => .ok i
  | none => .error .valueError

example : intOfStr (str " -1_20\n") = .ok (-120) := by decide

/-! ## Dynamically typed values -/

/-- A value of the program: decoded from a table, parsed from JSON, or received as a body.
Dictionaries list their entries in insertion order. -/
inductive Val where
  | none
  | bool (b : Bool)
  | int (i : Int)
  | float (bits : Nat)
  | decimal (coefficient : Int) (exponent : Int)
  | datetime (timestamp : Nat)
  | bytes (b : Bytes)
  | str (s : Str)
  | list (items : List Val)
  | dict (entries : List (Str × Val))

/-- `bool(v)` -/
def Val.truthy : Val → Bool
  | .none => false
  | .bool b => b
  | .int i => i ≠ 0
  | .float bits => bits % 2 ^ 63 ≠ 0
  | .decimal c _ => c ≠ 0
  | .datetime _ => true
  | .bytes b => b ≠ []
  | .str s => s ≠ []
  | .list items => !items.isEmpty
  | .dict entries => !entries.isEmpty

/-- `len(v)` -/
def Val.len : Val → Except PyError Nat
  | .bytes b => .ok b.length
  | .str s => .ok s.length
  | .list items => .ok items.length
  | .dict entries => .ok entries.length
  | _ => .error .typeError

/-- The number `struct.pack` finds in an argument of an integer field. -/
def Val.index : Val → Except PyError Int
  | .int i => .ok i
  | .bool b => .ok (if b then 1 else 0)
  | _ => .error .structError

/-- `int(v)` -/
def Val.toInt : Val → Except PyError Int
  | .int i => .ok i
  | .bool b => .ok (if b then 1 else 0)
  | .float bits => truncDouble bits
  | .decimal c e => .ok (if 0 ≤ e then c * 10 ^ e.toNat else c.tdiv (10 ^ (-e).toNat))
  | .str s => intOfStr s
  | .bytes b => if b.all (·.toNat < 0x80) then intOfStr (b.map fun x => Fin.ofNat _ x.toNat)
      else .error .valueError
  | _ => .error .typeError

/-- Iteration over a value, as a `for` loop does it. -/
def Val.iter : Val → Except PyError (List Val)
  | .list items => .ok items
  | .str s => .ok (s.map fun c => .str [c])
  | .bytes b => .ok (b.map fun x => .int x.toNat)
  | .dict entries => .ok (entries.map fun p => .str p.1)
  | _ => .error .typeError

/-- `name in v` for a text `name`. -/
def Val.contains (v : Val) (name : Str) : Except PyError Bool :=
  match v with
  | .dict entries => .ok (entries.lookup name).isSome
  | .list items => .ok (items.any fun i => match i with | .str s => s = name | _ => false)
  | .str s => .ok (s.tails.any name.isPrefixOf)
  | _ => .error .typeError

/-- `v[name]` for a text `name`. -/
def Val.subscript (v : Val) (name : Str) : Except PyError Val :=
  match v with
  | .dict entries =>
      match entries.lookup name with
      | some x => .ok x
      | .none => .error .keyError
  | _ => .error .typeError

end MockAmqp
