import EntityCache.Json.Structure
import EntityCache.Numeric.Decimal

/-!
# Values as JSON text

* `Value.read`, `Value.ofText?`: reading.  In an object the last value of a key counts.
* `Value.chars`, `Value.text`: the canonical text, without blanks and with the fields in the order
  in which they stand.
* `quoted`: a string with its quotes and escapes.
* `numberLayout`: how floats are laid out.

An id is written as a plain string, so reading gives the string back.
-/

namespace EntityCache

open Json (Symbols Scan Fault)

/-! ## Reading -/

namespace Value

/-- A value whose parts are read by `item`, with `room` for more open containers. -/
def readWith (item : Symbols → Scan Value) (room : Nat) (s : Symbols) : Scan Value :=
  match Json.skipBlank s with
  | [] => .error .ended
  | none :: _ => .error .malformed
  | some c :: rest =>
      if c = 'n' then (Json.readWord ['u', 'l', 'l'] rest).map (fun rest => (.null, rest))
      else if c = 't' then
        (Json.readWord ['r', 'u', 'e'] rest).map (fun rest => (.bool true, rest))
      else if c = 'f' then
        (Json.readWord ['a', 'l', 's', 'e'] rest).map (fun rest => (.bool false, rest))
      else if c = '"' then (Json.readString rest).map (fun (s, rest) => (.str s, rest))
      else if c = '-' then (Json.readNumber true rest).map (fun (n, rest) => (.num n, rest))
      else if Json.isDigit c then
        (Json.readNumber false (some c :: rest)).map (fun (n, rest) => (.num n, rest))
      else if c = '[' then
        (Json.readSeries room item (some c :: rest)).map (fun (items, rest) => (.list items, rest))
      else if c = '{' then
        (Json.readNamed room item (some c :: rest)).map (fun (fields, rest) => (.map fields, rest))
      else .error .malformed

/-- A value inside a larger text, with room for `room` more open containers. -/
def read : (room : Nat) → Symbols → Scan Value
  | 0 => readWith (fun _ => .error .malformed) 0
  | room + 1 => readWith (read room) (room + 1)

/-- The value of a whole text. -/
def ofText? (text : String) : Except Fault Value :=
  Json.document (read Json.maxRoom) (Json.symbolsOf text)

end Value

/-! ## Strings -/

/-- A character inside quotes: quote and backslash and the control characters are escaped, five of
the latter by a letter. -/
def escaped (c : Char) : List Char :=
  if c = '"' then ['\\', '"']
  else if c = '\\' then ['\\', '\\']
  else if c = '\x08' then ['\\', 'b']
  else if c = '\x0c' then ['\\', 'f']
  else if c = '\n' then ['\\', 'n']
  else if c = '\r' then ['\\', 'r']
  else if c = '\t' then ['\\', 't']
  else if c.toNat < 32 then
    ['\\', 'u', '0', '0', Text.Hex.digit (c.toNat / 16), Text.Hex.digit (c.toNat % 16)]
  else [c]

def quoted (s : String) : List Char :=
  '"' :: (s.toList.flatMap escaped ++ ['"'])

/-! ## Numbers -/

/-- Floats are positional from `10 ^ -5` to below `10 ^ 16` and always show a point there; positive
exponents carry a sign. -/
def numberLayout : Numeric.Layout :=
  ⟨-5, 16, ['.', '0'], ['+']⟩

def floatChars (x : Numeric.Binary64) : List Char :=
  if !x.isFinite then ['n', 'u', 'l', 'l']
  else
    let digits := if x.isZero then ['0', '.', '0'] else numberLayout.write (.ofBinary x)
    if x.negative then '-' :: digits else digits

def intChars : Int → List Char
  | .ofNat n => Numeric.digitsOf n
  | .negSucc n => '-' :: Numeric.digitsOf (n + 1)

def Number.chars : Number → List Char
  | .int n => intChars n
  | .float x => floatChars x

/-! ## Values -/

/-- Parts with commas between them. -/
def separated : List (List Char) → List Char
  | [] => []
  | [part] => part
  | part :: rest => part ++ ',' :: separated rest

/-- An object from its members, each a key and the text of its value. -/
def objectChars (members : List (String × List Char)) : List Char :=
  '{' :: (separated (members.map (fun m => quoted m.1 ++ ':' :: m.2)) ++ ['}'])

def arrayChars (items : List (List Char)) : List Char :=
  '[' :: (separated items ++ [']'])

namespace Value

mutual

/-- The canonical text as characters. -/
def chars : Value → List Char
  | .null => ['n', 'u', 'l', 'l']
  | .bool true => ['t', 'r', 'u', 'e']
  | .bool false => ['f', 'a', 'l', 's', 'e']
  | .num n => n.chars
  | .str s => quoted s
  | .id s => quoted s
  | .list items => arrayChars (itemChars items)
  | .map fields => objectChars (fieldChars fields)

def itemChars : List Value → List (List Char)
  | [] => []
  | v :: rest => chars v :: itemChars rest

def fieldChars : List (String × Value) → List (String × List Char)
  | [] => []
  | (k, v) :: rest => (k, chars v) :: fieldChars rest

end

/-- The canonical text. -/
def text (v : Value) : String :=
  String.ofList v.chars

end Value
end EntityCache
