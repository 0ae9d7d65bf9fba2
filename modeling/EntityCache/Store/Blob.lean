import EntityCache.Store.Error

/-!
# Stored bytes

* `Blob`: bytes as a store keeps them.
* `Blob.pack`, `Blob.unpack`: the compression layer.  Without a compressor packing keeps the bytes,
  and bytes that start like compressed data are refused.
* `Blob.symbols`: the characters of the bytes; a byte of no character stands for itself.
-/

namespace EntityCache

/-- Bytes as a store keeps them. -/
abbrev Blob : Type := ByteArray

namespace Blob

def bytes (b : Blob) : List UInt8 :=
  b.data.toList

def ofBytes (l : List UInt8) : Blob :=
  ⟨l.toArray⟩

/-- The first bytes of compressed data. -/
def magic : List UInt8 :=
  [0x28, 0xb5, 0x2f, 0xfd]

def isCompressed (b : Blob) : Bool :=
  b.bytes.take 4 == magic

def pack (raw : Blob) : Except BlobError Blob :=
  .ok raw

def unpack (stored : Blob) : Except BlobError Blob :=
  if stored.isCompressed then
    .error (.decompress "blob is zstd-compressed but the `compression` feature is disabled")
  else
    .ok stored

/-! ## Characters -/

def text? (b : Blob) : Option String :=
  String.fromUTF8? b

/-- The character that the first `n` bytes encode. -/
def charOf? (l : List UInt8) (n : Nat) : Option Char :=
  match (ofBytes (l.take n)).text? with
  | some s =>
      match s.toList with
      | [c] => some c
      | _ => none
  | none => none

/-- The first character and the number of its bytes. -/
def firstChar? (l : List UInt8) : Option (Char × Nat) :=
  [1, 2, 3, 4].findSome? (fun n => (charOf? l n).map (fun c => (c, n)))

/-- Characters as far as there are any, and a symbol without one for each other byte. -/
def damagedSymbols : (fuel : Nat) → List UInt8 → Json.Symbols
  | 0, _ => []
  | _ + 1, [] => []
  | fuel + 1, b :: rest =>
      match firstChar? (b :: rest) with
      | some (c, n) => some c :: damagedSymbols fuel ((b :: rest).drop n)
      | none => none :: damagedSymbols fuel rest

def symbols (b : Blob) : Json.Symbols :=
  match b.text? with
  | some s => Json.symbolsOf s
  | none => damagedSymbols b.bytes.length b.bytes

/-- The bytes of a text read back as that text. -/
theorem text?_toUTF8 (s : String) : text? s.toUTF8 = some s :=
  dif_pos s.isValidUTF8

theorem symbols_toUTF8 (s : String) : symbols s.toUTF8 = Json.symbolsOf s := by
  rw [symbols, text?_toUTF8]

/-! ## Stored forms -/

/-- The bytes of a stored form. -/
def encode (key : String) (text : String) : Except StoreError Blob :=
  (pack text.toUTF8).mapError (fun e => .codec key (.blob e))

/-- What `reader` makes of the characters of stored bytes. -/
def decode {α : Type} (reader : Json.Symbols → Except Json.Fault α) (key : String) (stored : Blob) :
    Except StoreError α :=
  match unpack stored with
  | .error e => .error (.codec key (.blob e))
  | .ok raw => (reader raw.symbols).mapError (fun f => .codec key (.undecodable f))

end Blob
end EntityCache
