import MockAmqp.Values

/-!
# Wire encoding of arguments

`loads`, `dumps` and their table and array helpers. A recursion of the decoder is bounded
by fuel: every item read takes its tag byte from inside the buffer, so `itemFuel` is enough.
-/

namespace MockAmqp

def bytesToStr (b : Bytes) : Except PyError Str := decodeUtf8 true b

/-- The last second of year 9999, where `datetime.utcfromtimestamp` stops. -/
def maxTimestamp : Nat := 253402300799

def utcfromtimestamp (n : Nat) : Except PyError Val :=
  if n ≤ maxTimestamp then .ok (.datetime n) else .error .valueError

/-- `Decimal(n) / Decimal(10 ** d)`, exact, with trailing zeros dropped. -/
def decimalDiv (n : Int) : Nat → Val
  | 0 => .decimal n 0
  | d + 1 => if n % 10 = 0 then decimalDiv (n / 10) d else .decimal n (-(d + 1 : Nat))

def illegalTableType (p : Char) : String :=
  "    Table type '" ++ p.toString ++ "' not handled by amqp.\n"

def unknownTableValue (ftype : Char) : String :=
  "Unknown value in table: '" ++ ftype.toString ++ "' (<class 'str'>)"

mutual

/-- `_read_item` -/
def readItem : Nat → Bytes → Nat → Except PyError (Val × Nat)
  | 0, _, _ => .error .outOfFuel
  | fuel + 1, buf, start => do
      let tag ← match buf[start]? with
        | some b => .ok b
        | none => .error .indexError
      let offset := start + 1
      match Char.ofNat tag.toNat with
      | 'S' =>
          let slen ← unpackFrom 4 buf offset
          let val ← bytesToStr (slice buf (offset + 4) (offset + 4 + slen))
          return (.str val, offset + 4 + slen)
      | 'b' => return (.int (← unpackFrom 1 buf offset), offset + 1)
      | 'B' => return (.int (toSigned 1 (← unpackFrom 1 buf offset)), offset + 1)
      | 'U' | 's' => return (.int (toSigned 2 (← unpackFrom 2 buf offset)), offset + 2)
      | 'u' => return (.int (← unpackFrom 2 buf offset), offset + 2)
      | 'I' => return (.int (toSigned 4 (← unpackFrom 4 buf offset)), offset + 4)
      | 'i' => return (.int (← unpackFrom 4 buf offset), offset + 4)
      | 'L' => return (.int (toSigned 8 (← unpackFrom 8 buf offset)), offset + 8)
      | 'l' => return (.int (← unpackFrom 8 buf offset), offset + 8)
      | 'f' => return (.float (doubleOfSingle (← unpackFrom 4 buf offset)), offset + 4)
      | 'd' => return (.float (← unpackFrom 8 buf offset), offset + 8)
      | 'D' =>
          let d ← unpackFrom 1 buf offset
          let n ← unpackFrom 4 buf (offset + 1)
          return (decimalDiv (toSigned 4 n) d, offset + 5)
      | 'F' =>
          let tlen ← unpackFrom 4 buf offset
          let (val, offset) ← readTable fuel buf (offset + 4) (offset + 4 + tlen) []
          return (.dict val, offset)
      | 'A' =>
          let alen ← unpackFrom 4 buf offset
          let (val, offset) ← readArray fuel buf (offset + 4) (offset + 4 + alen) []
          return (.list val, offset)
      | 't' => return (.bool ((← unpackFrom 1 buf offset) ≠ 0), offset + 1)
      | 'T' =>
          let val ← unpackFrom 8 buf offset
          return (← utcfromtimestamp val, offset + 8)
      | 'V' => return (.none, offset)
      | ftype => .error (.frameSyntaxError (unknownTableValue ftype))
termination_by structural n => n

/-- The `while offset < limit` loop of a table. -/
def readTable : Nat → Bytes → Nat → Nat → List (Str × Val) →
    Except PyError (List (Str × Val) × Nat)
  | 0, _, _, _, _ => .error .outOfFuel
  | fuel + 1, buf, offset, limit, val =>
      if offset < limit then do
        let keylen ← unpackFrom 1 buf offset
        let key ← bytesToStr (slice buf (offset + 1) (offset + 1 + keylen))
        let (v, offset) ← readItem fuel buf (offset + 1 + keylen)
        readTable fuel buf offset limit (assocSet val key v)
      else .ok (val, offset)
termination_by structural n => n

/-- The `while offset < limit` loop of an array. -/
def readArray : Nat → Bytes → Nat → Nat → List Val → Except PyError (List Val × Nat)
  | 0, _, _, _, _ => .error .outOfFuel
  | fuel + 1, buf, offset, limit, val =>
      if offset < limit then do
        let (v, offset) ← readItem fuel buf offset
        readArray fuel buf offset limit (val ++ [v])
      else .ok (val, offset)
termination_by structural n => n

end

def itemFuel (buf : Bytes) : Nat := 2 * buf.length + 3

/-- What the decoding loop carries from one letter of the format to the next. -/
structure LoadState where
  bitcount : Nat
  bits : Nat
  offset : Nat

def loadOne (buf : Bytes) (st : LoadState) (p : Char) : Except PyError (Val × LoadState) :=
  let at' (offset : Nat) : LoadState := { bitcount := 0, bits := 0, offset }
  let offset := st.offset
  match p with
  | 'b' => do
      let (bits, offset) ← if st.bitcount = 0 then
          match buf[offset]? with
          | some x => .ok (x.toNat, offset + 1)
          | none => .error .typeError
        else .ok (st.bits, offset)
      return (.bool (bits % 2 = 1), { bitcount := 8 - 1, bits := bits / 2, offset })
  | 'o' => return (.int (← unpackFrom 1 buf offset), at' (offset + 1))
  | 'B' => return (.int (← unpackFrom 2 buf offset), at' (offset + 2))
  | 'l' => return (.int (← unpackFrom 4 buf offset), at' (offset + 4))
  | 'L' => return (.int (← unpackFrom 8 buf offset), at' (offset + 8))
  | 'f' => return (.float (doubleOfSingle (← unpackFrom 4 buf offset)), at' (offset + 4))
  | 's' => do
      let slen ← unpackFrom 1 buf offset
      let val ← bytesToStr (slice buf (offset + 1) (offset + 1 + slen))
      return (.str val, at' (offset + 1 + slen))
  | 'S' => do
      let slen ← unpackFrom 4 buf offset
      let val ← bytesToStr (slice buf (offset + 4) (offset + 4 + slen))
      return (.str val, at' (offset + 4 + slen))
  | 'F' => do
      let tlen ← unpackFrom 4 buf offset
      let (val, offset) ← readTable (itemFuel buf) buf (offset + 4) (offset + 4 + tlen) []
      return (.dict val, at' offset)
  | 'A' => do
      let alen ← unpackFrom 4 buf offset
      let (val, offset) ← readArray (itemFuel buf) buf (offset + 4) (offset + 4 + alen) []
      return (.list val, at' offset)
  | 'T' => do
      let val ← unpackFrom 8 buf offset
      return (← utcfromtimestamp val, at' (offset + 8))
  | p => .error (.frameSyntaxError (illegalTableType p))

def loadAll (buf : Bytes) : List Char → LoadState → Except PyError (List Val × Nat)
  | [], st => .ok ([], st.offset)
  | p :: format, st => do
      let (val, st) ← loadOne buf st p
      let (values, offset) ← loadAll buf format st
      return (val :: values, offset)

/-- `loads(format, buf, offset)`: the decoded values and the offset after them. -/
def loads (format : List Char) (buf : Bytes) (offset : Nat) : Except PyError (List Val × Nat) :=
  loadAll buf format { bitcount := 0, bits := 0, offset }

/-! ## Encoding -/

def Val.encoded : Val → Option Bytes
  | .str s => some (encodePass s)
  | .bytes b => some b
  | _ => Option.none

/-- A value whose length goes into a field of `width` bytes before it. -/
def lengthPrefixed (width : Nat) (b : Bytes) : Except PyError Bytes := do
  return (← packUnsigned width b.length) ++ b

/-- `except ValueError`, which the errors of text codecs also are. -/
def isValueError : PyError → Bool
  | .valueError | .unicodeDecodeError | .unicodeEncodeError => true
  | _ => false

def orFrameSyntaxError (text : String) : Except PyError Bytes → Except PyError Bytes
  | .error e => .error (if isValueError e then .frameSyntaxError text else e)
  | .ok b => .ok b

mutual

/-- `_write_item` -/
def writeItem : Val → Except PyError Bytes
  | .str s => do return ascii "S" ++ (← lengthPrefixed 4 (encodePass s))
  | .bytes b => do return ascii "S" ++ (← lengthPrefixed 4 b)
  | .bool b => .ok (ascii "t" ++ [if b then 1 else 0])
  | .float bits => do return ascii "d" ++ (← packUnsigned 8 bits)
  | .int i =>
      if i > 2147483647 ∨ i < -2147483647 then do return ascii "L" ++ (← packSigned 8 i)
      else do return ascii "I" ++ (← packSigned 4 i)
  | .decimal c e => do
      return ascii "D" ++ (← packUnsigned 1 (-e)) ++ (← packSigned 4 c)
  | .datetime t => do return ascii "T" ++ (← packUnsigned 8 t)
  | .dict entries => do return ascii "F" ++ (← lengthPrefixed 4 (← tableData entries))
  | .list items => do return ascii "A" ++ (← lengthPrefixed 4 (← arrayData items))
  | .none => .ok (ascii "V")

/-- The entries `_write_table` collects before it writes their length. -/
def tableData : List (Str × Val) → Except PyError Bytes
  | [] => .ok []
  | (k, v) :: rest => do
      let key ← lengthPrefixed 1 (encodePass k)
      let item ← orFrameSyntaxError "Table type not handled by amqp." (writeItem v)
      return key ++ item ++ (← tableData rest)

/-- The items `_write_array` collects before it writes their length. -/
def arrayData : List Val → Except PyError Bytes
  | [] => .ok []
  | v :: rest => do
      let item ← orFrameSyntaxError "Table type not handled by amqp." (writeItem v)
      return item ++ (← arrayData rest)

end

/-- `_write_table(val or {}, ...)` -/
def writeTable (val : Val) : Except PyError Bytes :=
  if val.truthy then
    match val with
    | .dict entries => do lengthPrefixed 4 (← tableData entries)
    | _ => .error .attributeError
  else lengthPrefixed 4 []

/-- `_write_array(val or [], ...)` -/
def writeArray (val : Val) : Except PyError Bytes := do
  let items ← if val.truthy then val.iter else .ok []
  lengthPrefixed 4 (← arrayData items)

/-- `val or ''`, encoded and written after its length. -/
def writeString (width : Nat) (val : Val) : Except PyError Bytes :=
  if val.truthy then
    match val.encoded with
    | some b => lengthPrefixed width b
    | none => do
        let _ ← packUnsigned width (← val.len)
        .error .typeError
  else lengthPrefixed width []

/-- `pack('>f', val)` -/
def packFloat (val : Val) : Except PyError Bytes := do
  let double ← match val with
    | .float bits => .ok bits
    | .decimal c e =>
        -- the exact quotient scaled by 2 ^ 1200, and a last bit that tells a remainder
        let n := c.natAbs * 10 ^ e.toNat * 2 ^ 1200
        let d := 10 ^ (-e).toNat
        match floatBits 52 11 (2 * (n / d) + if n % d = 0 then 0 else 1) (-1201) with
        | some bits => .ok (bits + if c < 0 then 2 ^ 63 else 0)
        | none => .error .overflowError
    | v => do
        let i ← v.index
        match floatBits 52 11 i.natAbs 0 with
        | some bits => .ok (bits + if i < 0 then 2 ^ 63 else 0)
        | none => .error .overflowError
  packUnsigned 4 (← singleOfDouble double)

/-- The bytes written so far, after the byte of bits still being filled. -/
structure DumpState where
  bitcount : Nat
  bits : Bytes
  out : Bytes

/-- `_flushbits` -/
def DumpState.flush (st : DumpState) : DumpState :=
  { bitcount := 0, bits := [], out := st.out ++ st.bits }

def DumpState.write (st : DumpState) (b : Bytes) : DumpState := { st with out := st.out ++ b }

def dumpOne (st : DumpState) (p : Char) (val : Val) : Except PyError DumpState :=
  match p with
  | 'b' =>
      let shift := st.bitcount % 8
      let bits := if shift = 0 then st.bits ++ [0] else st.bits
      let last := bits.getLast?.getD 0 ||| (if val.truthy then UInt8.ofNat (2 ^ shift) else 0)
      .ok { st with bitcount := st.bitcount + 1, bits := bits.dropLast ++ [last] }
  | 'o' => do return st.flush.write (← packUnsigned 1 (← val.index))
  | 'B' => do return st.flush.write (← packUnsigned 2 (← val.toInt))
  | 'l' => do return st.flush.write (← packUnsigned 4 (← val.index))
  | 'L' => do return st.flush.write (← packUnsigned 8 (← val.index))
  | 'f' => do return st.flush.write (← packFloat val)
  | 's' => do return st.flush.write (← writeString 1 val)
  | 'S' => do return st.flush.write (← writeString 4 val)
  | 'F' => do return st.flush.write (← writeTable val)
  | 'A' => do return st.flush.write (← writeArray val)
  | 'T' =>
      -- no flush here: bits before a timestamp are written after it
      match val with
      | .datetime t => do return st.write (← packUnsigned 8 t)
      | _ => .error .attributeError
  | _ => .ok st

def dumpAll : List Char → List Val → DumpState → Except PyError Bytes
  | _, [], st => .ok st.flush.out
  | [], _ :: _, _ => .error .indexError
  | p :: format, val :: values, st => do dumpAll format values (← dumpOne st p val)

/-- `dumps(format, values)` -/
def dumps (format : List Char) (values : List Val) : Except PyError Bytes :=
  dumpAll format values { bitcount := 0, bits := [], out := [] }

end MockAmqp
