/-!
# Hexadecimal text

* `Hex.encode`: bytes as lower-case digit pairs.
* `Hex.decode?`: digit pairs of either case as bytes; `none` for anything else.
* `Hex.digitValue?`: the value of one digit.
-/

namespace EntityCache
namespace Text
namespace Hex

def digit (n : Nat) : Char :=
  if n < 10 then Char.ofNat (48 + n) else Char.ofNat (87 + n)

def digitValue? (c : Char) : Option Nat :=
  if '0' ≤ c ∧ c ≤ '9' then some (c.toNat - 48)
  else if 'a' ≤ c ∧ c ≤ 'f' then some (c.toNat - 87)
  else if 'A' ≤ c ∧ c ≤ 'F' then some (c.toNat - 55)
  else none

def encodeByte (b : UInt8) : List Char :=
  [digit (b.toNat / 16), digit (b.toNat % 16)]

def encode (bytes : List UInt8) : String :=
  String.ofList (bytes.flatMap encodeByte)

def decodeChars? : List Char → Option (List UInt8)
  | [] =>
      some []
  | [_] =>
      none
  | hi :: lo :: rest => do
      let h ← digitValue? hi
      let l ← digitValue? lo
      let bytes ← decodeChars? rest
      pure (UInt8.ofNat (16 * h + l) :: bytes)

def decode? (s : String) : Option (List UInt8) :=
  decodeChars? s.toList

end Hex
end Text
end EntityCache
