import EntityCache.Text.Hex

/-!
# Lexical elements of JSON text

Readers take the symbols that are left and give what they read together with the rest:

* `Symbol`: a character, or a byte that belongs to no character (damaged text).
* `Fault`: the three ways in which reading fails.
* `skipBlank`, `readWord`, `readString`: blanks, the rest of a literal, the rest of a string.
* `passString`: the rest of a string whose content does not matter.

The first fault met from the left is the one reported.
-/

namespace EntityCache
namespace Json

/-- Why text could not be read. -/
inductive Fault where
  /-- The text ended too early. -/
  | ended
  /-- Well-formed so far, but not what is asked for here. -/
  | unexpected
  /-- No JSON, or a number or nesting out of range. -/
  | malformed
  deriving DecidableEq

/-- The word for a fault in answers. -/
def Fault.category : Fault → String
  | .ended => "eof"
  | .unexpected => "data"
  | .malformed => "syntax"

/-- A character of the text; `none` stands for a byte that belongs to no character. -/
abbrev Symbol : Type := Option Char

abbrev Symbols : Type := List Symbol

/-- The outcome of reading a part of a text. -/
abbrev Scan (α : Type) : Type := Except Fault (α × Symbols)

def symbolsOf (text : String) : Symbols :=
  text.toList.map some

def isBlank : Symbol → Bool
  | some c => c == ' ' || c == '\t' || c == '\n' || c == '\r'
  | none => false

def skipBlank (s : Symbols) : Symbols :=
  s.dropWhile isBlank

def isDigit (c : Char) : Bool :=
  decide ('0' ≤ c ∧ c ≤ '9')

/-- The letters of a literal after its first one. -/
def readWord : List Char → Symbols → Except Fault Symbols
  | [], s =>
      .ok s
  | _ :: _, [] =>
      .error .ended
  | c :: cs, x :: rest =>
      if x = some c then readWord cs rest else .error .malformed

/-! ## Escapes -/

/-- The bytes that a symbol takes. -/
def width : Symbol → Nat
  | some c => c.utf8Size
  | none => 1

/-- Whether at least four bytes are left. -/
def hasFourBytes (s : Symbols) : Bool :=
  decide (4 ≤ (s.take 4).foldl (fun n x => n + width x) 0)

/-- Four hexadecimal digits.  With fewer than four bytes left the text ended too early. -/
def readFourHex (s : Symbols) : Scan Nat :=
  let wrong : Scan Nat := .error (if hasFourBytes s then .malformed else .ended)
  match s with
  | some a :: some b :: some c :: some d :: rest =>
      match Text.Hex.digitValue? a, Text.Hex.digitValue? b, Text.Hex.digitValue? c,
          Text.Hex.digitValue? d with
      | some a, some b, some c, some d => .ok (((a * 16 + b) * 16 + c) * 16 + d, rest)
      | _, _, _, _ => wrong
  | _ => wrong

/-- The character of an escape by code, the text standing after `\u`.  A code from the surrogate
range counts only as the first half of a pair. -/
def readCode (s : Symbols) : Scan Char :=
  match readFourHex s with
  | .error e => .error e
  | .ok (n, rest) =>
      if 0xDC00 ≤ n ∧ n ≤ 0xDFFF then .error .malformed
      else if n < 0xD800 ∨ 0xDBFF < n then .ok (Char.ofNat n, rest)
      else
        match rest with
        | [] => .error .ended
        | [some '\\'] => .error .ended
        | some '\\' :: some 'u' :: rest =>
            match readFourHex rest with
            | .error e => .error e
            | .ok (m, rest) =>
                if 0xDC00 ≤ m ∧ m ≤ 0xDFFF then
                  .ok (Char.ofNat (0x10000 + (n - 0xD800) * 0x400 + (m - 0xDC00)), rest)
                else
                  .error .malformed
        | _ => .error .malformed

/-- The character that a one-letter escape stands for. -/
def escapeLetter? : Char → Option Char
  | '"' => some '"'
  | '\\' => some '\\'
  | '/' => some '/'
  | 'b' => some '\x08'
  | 'f' => some '\x0c'
  | 'n' => some '\n'
  | 'r' => some '\r'
  | 't' => some '\t'
  | _ => none

/-- The character of an escape, the text standing after the backslash. -/
def readEscape : Symbols → Scan Char
  | [] =>
      .error .ended
  | some 'u' :: rest =>
      readCode rest
  | some c :: rest =>
      match escapeLetter? c with
      | some d => .ok (d, rest)
      | none => .error .malformed
  | none :: _ =>
      .error .malformed

/-! ## Strings -/

/-- The characters up to the closing quote, put before those of `acc`, last one first. -/
def readStringFrom : (fuel : Nat) → (acc : List Char) → Symbols → Scan (List Char)
  | 0, _, _ =>
      .error .ended
  | _ + 1, _, [] =>
      .error .ended
  | fuel + 1, acc, x :: rest =>
      match x with
      | none => .error .malformed
      | some c =>
          if c = '"' then .ok (acc, rest)
          else if c = '\\' then
            match readEscape rest with
            | .error e => .error e
            | .ok (d, rest) => readStringFrom fuel (d :: acc) rest
          else if c.toNat < 32 then .error .malformed
          else readStringFrom fuel (c :: acc) rest

/-- A string, the text standing after its opening quote. -/
def readString (s : Symbols) : Scan String :=
  match readStringFrom (s.length + 1) [] s with
  | .error e => .error e
  | .ok (acc, rest) => .ok (String.ofList acc.reverse, rest)

/-- Past the closing quote of a string whose content does not matter: damaged bytes and half
surrogate pairs pass, control characters and broken escapes do not. -/
def passStringFrom : (fuel : Nat) → Symbols → Except Fault Symbols
  | 0, _ =>
      .error .ended
  | _ + 1, [] =>
      .error .ended
  | _ + 1, some '"' :: rest =>
      .ok rest
  | fuel + 1, some '\\' :: rest =>
      match rest with
      | [] => .error .ended
      | some 'u' :: rest =>
          match readFourHex rest with
          | .error e => .error e
          | .ok (_, rest) => passStringFrom fuel rest
      | some c :: rest =>
          if (escapeLetter? c).isSome then passStringFrom fuel rest else .error .malformed
      | none :: _ => .error .malformed
  | fuel + 1, x :: rest =>
      if x.any (fun c => c.toNat < 32) then .error .malformed else passStringFrom fuel rest

def passString (s : Symbols) : Except Fault Symbols :=
  passStringFrom (s.length + 1) s

end Json
end EntityCache
