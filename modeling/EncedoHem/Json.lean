import EncedoHem.Lib.Double

namespace EncedoHem
open Text Double

/-- A parsed value. Strings and names are C strings: what follows a zero is lost. -/
inductive Json where
  | null
  | bool (b : Bool)
  | num (d : Dbl)
  | str (s : Bytes)
  | arr (xs : List Json)
  | obj (ms : List (Bytes × Json))

def nestingLimit : Nat := 1000

def skipWhitespace (b : Bytes) : Bytes := b.dropWhile (· ≤ 32)

/-- The byte order mark is skipped when at least one byte follows its first four. -/
def skipUtf8Bom (b : Bytes) : Bytes :=
  if 4 < b.length ∧ b.take 3 = [0xEF, 0xBB, 0xBF] then b.drop 3 else b

def hexDigit (c : UInt8) : Option Nat :=
  if 48 ≤ c ∧ c ≤ 57 then some (c.toNat - 48)
  else if 65 ≤ c ∧ c ≤ 70 then some (c.toNat - 55)
  else if 97 ≤ c ∧ c ≤ 102 then some (c.toNat - 87)
  else none

/-- Four hexadecimal digits; anything else reads as zero. -/
def parseHex4 : Bytes → Nat
  | a :: b :: c :: d :: _ =>
    match hexDigit a, hexDigit b, hexDigit c, hexDigit d with
    | some a, some b, some c, some d => ((a * 16 + b) * 16 + c) * 16 + d
    | _, _, _, _ => 0
  | _ => 0

def utf8 (cp : Nat) : Bytes :=
  if cp < 0x80 then [UInt8.ofNat cp]
  else if cp < 0x800 then [UInt8.ofNat (0xC0 + cp / 64), UInt8.ofNat (0x80 + cp % 64)]
  else if cp < 0x10000 then
    [UInt8.ofNat (0xE0 + cp / 4096), UInt8.ofNat (0x80 + cp / 64 % 64), UInt8.ofNat (0x80 + cp % 64)]
  else
    [UInt8.ofNat (0xF0 + cp / 262144), UInt8.ofNat (0x80 + cp / 4096 % 64),
      UInt8.ofNat (0x80 + cp / 64 % 64), UInt8.ofNat (0x80 + cp % 64)]

/-- A `\u` escape at the start of the text: its bytes and how long it is. -/
def utf16LiteralToUtf8 (b : Bytes) : Option (Bytes × Nat) :=
  if b.length < 6 then none
  else
    let first := parseHex4 (b.drop 2)
    if 0xDC00 ≤ first ∧ first ≤ 0xDFFF then none
    else if 0xD800 ≤ first ∧ first ≤ 0xDBFF then
      let second := b.drop 6
      if second.length < 6 ∨ second.take 2 ≠ lit "\\u" then none
      else
        let code := parseHex4 (second.drop 2)
        if code < 0xDC00 ∨ 0xDFFF < code then none
        else some (utf8 (0x10000 + (first % 1024) * 1024 + code % 1024), 12)
    else some (utf8 first, 6)

/-- The text of a string literal up to its closing quote, and what follows it.
A backslash takes the next byte along, whatever it is. -/
def literalEnd : Bytes → Option (Bytes × Bytes)
  | [] => none
  | 34 :: rest => some ([], rest)
  | 92 :: c :: rest => (literalEnd rest).map fun (l, r) => (92 :: c :: l, r)
  | [92] => none
  | c :: rest => (literalEnd rest).map fun (l, r) => (c :: l, r)

/-- The bytes a one-letter escape stands for. -/
def escaped (c : UInt8) : Option UInt8 :=
  if c = 98 then some 8 else if c = 102 then some 12 else if c = 110 then some 10
  else if c = 114 then some 13 else if c = 116 then some 9
  else if c = 34 ∨ c = 92 ∨ c = 47 then some c else none

/-- The literal's text with its escapes resolved; every step takes at least one byte. -/
def unescape : Nat → Bytes → Option Bytes
  | _, [] => some []
  | 0, _ :: _ => none
  | fuel + 1, c :: rest =>
    if c ≠ 92 then (unescape fuel rest).map (c :: ·)
    else match rest with
      | [] => none
      | e :: rest' =>
        if e = 117 then do
          let (out, n) ← utf16LiteralToUtf8 (c :: rest)
          (unescape fuel ((c :: rest).drop n)).map (out ++ ·)
        else do
          let x ← escaped e
          (unescape fuel rest').map (x :: ·)

def parseString : Bytes → Option (Bytes × Bytes)
  | 34 :: rest => do
    let (l, r) ← literalEnd rest
    let s ← unescape l.length l
    some (cstr s, r)
  | _ => none

def isNumberByte (c : UInt8) : Bool :=
  isDigit c || c = 43 || c = 45 || c = 101 || c = 69 || c = 46

/-- At most 63 bytes are looked at, and `strtod` decides how many belong to the number. -/
def parseNumber (b : Bytes) : Option (Json × Bytes) := do
  let (d, n) ← strtod ((b.take 63).takeWhile isNumberByte)
  some (.num d, b.drop n)

mutual

/-- The value the text starts with and what follows it. The fuel is spent on
descending and on going from one element to the next. -/
def parseValue : Nat → Nat → Bytes → Option (Json × Bytes)
  | 0, _, _ => none
  | fuel + 1, depth, b =>
    if (lit "null").isPrefixOf b then some (.null, b.drop 4)
    else if (lit "false").isPrefixOf b then some (.bool false, b.drop 5)
    else if (lit "true").isPrefixOf b then some (.bool true, b.drop 4)
    else match b with
      | [] => none
      | c :: rest =>
        if c = 34 then (parseString b).map fun (s, r) => (.str s, r)
        else if c = 45 ∨ isDigit c then parseNumber b
        else if c = 91 then parseArray fuel depth rest
        else if c = 123 then parseObject fuel depth rest
        else none
termination_by structural n => n

/-- After the opening bracket. -/
def parseArray : Nat → Nat → Bytes → Option (Json × Bytes)
  | 0, _, _ => none
  | fuel + 1, depth, b =>
    if nestingLimit ≤ depth then none
    else match skipWhitespace b with
      | 93 :: rest => some (.arr [], rest)
      | b' => (parseElements fuel (depth + 1) b').map fun (xs, r) => (.arr xs, r)
termination_by structural n => n

def parseElements : Nat → Nat → Bytes → Option (List Json × Bytes)
  | 0, _, _ => none
  | fuel + 1, depth, b =>
    match parseValue fuel depth b with
    | none => none
    | some (v, r) =>
      match skipWhitespace r with
      | 44 :: rest => (parseElements fuel depth (skipWhitespace rest)).map fun (xs, r) => (v :: xs, r)
      | 93 :: rest => some ([v], rest)
      | _ => none
termination_by structural n => n

/-- After the opening brace. -/
def parseObject : Nat → Nat → Bytes → Option (Json × Bytes)
  | 0, _, _ => none
  | fuel + 1, depth, b =>
    if nestingLimit ≤ depth then none
    else match skipWhitespace b with
      | 125 :: rest => some (.obj [], rest)
      | b' => (parseMembers fuel (depth + 1) b').map fun (ms, r) => (.obj ms, r)
termination_by structural n => n

def parseMembers : Nat → Nat → Bytes → Option (List (Bytes × Json) × Bytes)
  | 0, _, _ => none
  | fuel + 1, depth, b =>
    match parseString b with
    | none => none
    | some (name, r) =>
      match skipWhitespace r with
      | 58 :: r =>
        match parseValue fuel depth (skipWhitespace r) with
        | none => none
        | some (v, r) =>
          match skipWhitespace r with
          | 44 :: rest =>
            (parseMembers fuel depth (skipWhitespace rest)).map fun (ms, r) => ((name, v) :: ms, r)
          | 125 :: rest => some ([(name, v)], rest)
          | _ => none
      | _ => none
termination_by structural n => n

end

/-- The value a text starts with; bytes after it are tolerated. -/
def jsonParse (b : Bytes) : Option Json :=
  (parseValue (3 * b.length + 3) 0 (skipWhitespace (skipUtf8Bom b))).map (·.1)

namespace Json

def isObject : Json → Bool
  | obj _ => true
  | _ => false

/-- The first member of that name, in an object only. -/
def get : Json → Bytes → Option Json
  | obj ms, key => (ms.find? (·.1 = key)).map (·.2)
  | _, _ => none

def has (j : Json) (key : Bytes) : Bool := (j.get key).isSome

def getString (j : Json) (key : Bytes) : Option Bytes :=
  match j.get key with
  | some (str s) => some s
  | _ => none

def getDouble (j : Json) (key : Bytes) : Option Dbl :=
  match j.get key with
  | some (num d) => some d
  | _ => none

def getInt64 (j : Json) (key : Bytes) : Option Int := (j.getDouble key).map trunc

def getBool (j : Json) (key : Bytes) : Option Bool :=
  match j.get key with
  | some (bool b) => some b
  | _ => none

/-- The elements of an array; anything else has none. -/
def elements : Json → List Json
  | arr xs => xs
  | _ => []

def isArray : Json → Bool
  | arr _ => true
  | _ => false

def asString : Json → Option Bytes
  | str s => some s
  | _ => none

end Json

/-- The printed form of one byte inside a string. -/
def printByte (c : UInt8) : Bytes :=
  if c = 92 then lit "\\\\" else if c = 34 then lit "\\\""
  else if c = 8 then lit "\\b" else if c = 12 then lit "\\f" else if c = 10 then lit "\\n"
  else if c = 13 then lit "\\r" else if c = 9 then lit "\\t"
  else if c ≤ 31 then
    lit "\\u00" ++ [if c < 16 then 48 else 49, (lit "0123456789abcdef").getD (c.toNat % 16) 48]
  else [c]

def printString (s : Bytes) : Bytes := lit "\"" ++ s.flatMap printByte ++ lit "\""

/-- A printed number; the library only ever prints integers. Beyond the range of
an `int` the digits come from `%1.15g`, or `%1.17g` where that loses the value. -/
def printNumber : Dbl → Bytes
  | .inf _ => lit "null"
  | .fin m e =>
    let i := trunc (.fin m e)
    if -2147483648 ≤ i ∧ i ≤ 2147483647 then decimal i
    else
      let short := formatG 15 i
      match strtod short with
      | some (d, _) =>
        let t := trunc d
        if (t - i).natAbs * 2 ^ 52 ≤ max t.natAbs i.natAbs then short else formatG 17 i
      | none => formatG 17 i

mutual

def printValue : Json → Bytes
  | .null => lit "null"
  | .bool false => lit "false"
  | .bool true => lit "true"
  | .num d => printNumber d
  | .str s => printString s
  | .arr xs => lit "[" ++ printElements xs ++ lit "]"
  | .obj ms => lit "\x7b" ++ printMembers ms ++ lit "\x7d"

def printElements : List Json → Bytes
  | [] => []
  | [x] => printValue x
  | x :: xs => printValue x ++ lit "," ++ printElements xs

def printMembers : List (Bytes × Json) → Bytes
  | [] => []
  | [(k, v)] => printString k ++ lit ":" ++ printValue v
  | (k, v) :: ms => printString k ++ lit ":" ++ printValue v ++ lit "," ++ printMembers ms

end

/-- A member with an integer value, which the library holds as a double. -/
def Json.int (i : Int) : Json := .num (ofInt i)

end EncedoHem
