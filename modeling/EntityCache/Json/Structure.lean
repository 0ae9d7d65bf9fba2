import EntityCache.Json.Number

/-!
# Containers in JSON text

Reading of objects and arrays in terms of a reader for their parts, and passing over values that
do not matter:

* `readElements`, `readMembers`: the rest of an array or object, folding the parts into a state.
* `readRecord`: a value with declared fields, given by name in an object or by position in an
  array.
* `passValue`: past any value; neither nesting nor number ranges are limited there.
* `mismatch`: the fault of a value of the wrong type.
* `document`: a whole text.

A budget of open brackets is passed along as `room`; a bracket that finds none left is malformed.
Loops take a bound, `fuel`, that the length of the text satisfies.
-/

namespace EntityCache
namespace Json

variable {σ α : Type}

/-! ## Punctuation -/

/-- Past the colon between a key and its value. -/
def readColon (s : Symbols) : Except Fault Symbols :=
  match skipBlank s with
  | [] => .error .ended
  | some ':' :: rest => .ok rest
  | _ => .error .malformed

/-- The start of the next part of a container, or `none` past its end.  Parts are separated by
commas, and no comma stands before the end. -/
def nextPart (close : Char) (first : Bool) (s : Symbols) : Except Fault (Option Symbols × Symbols) :=
  match skipBlank s with
  | [] => .error .ended
  | x :: rest =>
      if x = some close then .ok (none, rest)
      else if first then .ok (some (x :: rest), [])
      else if x = some ',' then
        match skipBlank rest with
        | [] => .error .ended
        | y :: rest => if y = some close then .error .malformed else .ok (some (y :: rest), [])
      else .error .malformed

/-! ## Arrays and objects -/

/-- The rest of an array, each element read by `item` into the state. -/
def readElements (item : σ → Symbols → Scan σ) :
    (fuel : Nat) → (first : Bool) → σ → Symbols → Scan σ
  | 0, _, _, _ =>
      .error .malformed
  | fuel + 1, first, acc, s =>
      match nextPart ']' first s with
      | .error e => .error e
      | .ok (none, rest) => .ok (acc, rest)
      | .ok (some s, _) =>
          match item acc s with
          | .error e => .error e
          | .ok (acc, rest) => readElements item fuel false acc rest

/-- The rest of an object, each member read by `member` into the state.  `member` gets the key and
the text after it, from the colon on. -/
def readMembers (member : String → σ → Symbols → Scan σ) :
    (fuel : Nat) → (first : Bool) → σ → Symbols → Scan σ
  | 0, _, _, _ =>
      .error .malformed
  | fuel + 1, first, acc, s =>
      match nextPart '}' first s with
      | .error e => .error e
      | .ok (none, rest) => .ok (acc, rest)
      | .ok (some (some '"' :: s), _) =>
          match readString s with
          | .error e => .error e
          | .ok (key, rest) =>
              match member key acc rest with
              | .error e => .error e
              | .ok (acc, rest) => readMembers member fuel false acc rest
      | .ok (some _, _) => .error .malformed

/-! ## Values that do not matter -/

mutual

/-- Past a value, then past the containers it closes; `opened` holds the brackets to be closed,
innermost first. -/
def passFrom : (fuel : Nat) → (opened : List Char) → Symbols → Except Fault Symbols
  | 0, _, _ =>
      .error .malformed
  | fuel + 1, opened, s =>
      match skipBlank s with
      | [] => .error .ended
      | none :: _ => .error .malformed
      | some c :: rest =>
          if c = '[' then passRest fuel (']' :: opened) true rest
          else if c = '{' then passRest fuel ('}' :: opened) true rest
          else
            let after : Except Fault Symbols :=
              if c = 'n' then readWord ['u', 'l', 'l'] rest
              else if c = 't' then readWord ['r', 'u', 'e'] rest
              else if c = 'f' then readWord ['a', 'l', 's', 'e'] rest
              else if c = '"' then passString rest
              else if c = '-' then passNumber rest
              else if isDigit c then passNumber (some c :: rest)
              else .error .malformed
            match after with
            | .error e => .error e
            | .ok rest => passRest fuel opened false rest

/-- Past the rest of the open containers; `first` tells that nothing has been read in the
innermost one. -/
def passRest : (fuel : Nat) → (opened : List Char) → (first : Bool) → Symbols →
    Except Fault Symbols
  | 0, _, _, _ =>
      .error .malformed
  | _ + 1, [], _, s =>
      .ok s
  | fuel + 1, close :: opened, first, s =>
      match nextPart close first s with
      | .error e => .error e
      | .ok (none, rest) => passRest fuel opened false rest
      | .ok (some s, _) =>
          if close = ']' then passFrom fuel (close :: opened) s
          else
            match s with
            | some '"' :: s =>
                match passString s with
                | .error e => .error e
                | .ok rest =>
                    match readColon rest with
                    | .error e => .error e
                    | .ok rest => passFrom fuel (close :: opened) rest
            | _ => .error .malformed

end

def passValue (s : Symbols) : Except Fault Symbols :=
  passFrom (2 * s.length + 2) [] s

/-! ## Wrong types -/

/-- The fault of a value of a type that is not asked for.  A literal, number or string is read
first, and its own fault counts; a container is refused at its bracket. -/
def mismatch (s : Symbols) : Fault :=
  let judge (r : Except Fault Unit) : Fault :=
    match r with
    | .ok _ => .unexpected
    | .error e => e
  let done {β : Type} (r : Except Fault β) : Except Fault Unit := r.map (fun _ => ())
  match s with
  | [] => .ended
  | none :: _ => .malformed
  | some c :: rest =>
      if c = 'n' then judge (done (readWord ['u', 'l', 'l'] rest))
      else if c = 't' then judge (done (readWord ['r', 'u', 'e'] rest))
      else if c = 'f' then judge (done (readWord ['a', 'l', 's', 'e'] rest))
      else if c = '"' then judge (done (readString rest))
      else if c = '-' then judge (done (readNumber true rest))
      else if isDigit c then judge (done (readNumber false (some c :: rest)))
      else if c = '[' ∨ c = '{' then .unexpected
      else .malformed

/-! ## Values with declared fields -/

/-- What the reader of a record keeps while reading: the state and the fields met. -/
structure Partial (σ : Type) where
  state : σ
  met : List String

/-- One member of a record.  A field may be given once; an unknown one is passed over. -/
def readField (fields : List String) (field : String → σ → Symbols → Scan σ) (key : String)
    (p : Partial σ) (s : Symbols) : Scan (Partial σ) :=
  if key ∈ fields then
    if key ∈ p.met then .error .unexpected
    else
      match readColon s with
      | .error e => .error e
      | .ok s =>
          match field key p.state s with
          | .error e => .error e
          | .ok (state, rest) => .ok (⟨state, key :: p.met⟩, rest)
  else
    match readColon s with
    | .error e => .error e
    | .ok s =>
        match passValue s with
        | .error e => .error e
        | .ok rest => .ok (p, rest)

/-- The rest of an array that holds the fields in their order.  Trailing ones may be missing, and
nothing may follow. -/
def readPositions (field : String → σ → Symbols → Scan σ) :
    (fields : List String) → (first : Bool) → σ → Symbols → Scan σ
  | [], _, acc, s =>
      match skipBlank s with
      | [] => .error .ended
      | x :: rest => if x = some ']' then .ok (acc, rest) else .error .malformed
  | name :: fields, first, acc, s =>
      match nextPart ']' first s with
      | .error e => .error e
      | .ok (none, rest) => .ok (acc, rest)
      | .ok (some s, _) =>
          match field name acc s with
          | .error e => .error e
          | .ok (acc, rest) => readPositions field fields false acc rest

/-- A record with the declared `fields`, each read by `field` into the state.  `finish` supplies
what is missing or refuses. -/
def readRecord (fields : List String) (room : Nat) (field : String → σ → Symbols → Scan σ)
    (start : σ) (finish : σ → Except Fault α) (s : Symbols) : Scan α :=
  match skipBlank s with
  | [] => .error .ended
  | x :: rest =>
      let outcome : Scan σ :=
        if x = some '[' then
          if room = 0 then .error .malformed else readPositions field fields true start rest
        else if x = some '{' then
          if room = 0 then .error .malformed
          else
            match readMembers (readField fields field) (rest.length + 1) true ⟨start, []⟩ rest with
            | .error e => .error e
            | .ok (p, rest) => .ok (p.state, rest)
        else
          .error (mismatch (x :: rest))
      match outcome with
      | .error e => .error e
      | .ok (state, rest) => (finish state).map (fun a => (a, rest))

/-! ## Plain parts -/

/-- A string. -/
def readText (s : Symbols) : Scan String :=
  match skipBlank s with
  | some '"' :: rest => readString rest
  | s => .error (mismatch s)

/-- An integer from `low` up to and including `high`; a float is none. -/
def readInteger (low high : Int) (s : Symbols) : Scan Int :=
  let check (r : Scan Number) : Scan Int :=
    match r with
    | .error e => .error e
    | .ok (.int n, rest) => if low ≤ n ∧ n ≤ high then .ok (n, rest) else .error .unexpected
    | .ok (.float _, _) => .error .unexpected
  match skipBlank s with
  | some c :: rest =>
      if c = '-' then check (readNumber true rest)
      else if isDigit c then check (readNumber false (some c :: rest))
      else .error (mismatch (some c :: rest))
  | s => .error (mismatch s)

/-- `null`, or what `item` reads. -/
def readOptional (item : Symbols → Scan α) (s : Symbols) : Scan (Option α) :=
  match skipBlank s with
  | some 'n' :: rest =>
      match readWord ['u', 'l', 'l'] rest with
      | .error e => .error e
      | .ok rest => .ok (none, rest)
  | s =>
      match item s with
      | .error e => .error e
      | .ok (a, rest) => .ok (some a, rest)

/-- `null`. -/
def readNull (s : Symbols) : Scan Unit :=
  match skipBlank s with
  | some 'n' :: rest =>
      match readWord ['u', 'l', 'l'] rest with
      | .error e => .error e
      | .ok rest => .ok ((), rest)
  | s => .error (mismatch s)

/-- An object with values read by `item`, the last one of each key. -/
def readNamed (room : Nat) (item : Symbols → Scan α) (s : Symbols) : Scan (List (String × α)) :=
  match skipBlank s with
  | some '{' :: rest =>
      if room = 0 then .error .malformed
      else
        readMembers
          (fun key acc s =>
            match readColon s with
            | .error e => .error e
            | .ok s =>
                match item s with
                | .error e => .error e
                | .ok (v, rest) => .ok (Assoc.insert key v acc, rest))
          (rest.length + 1) true [] rest
  | s => .error (mismatch s)

/-- An array with elements read by `item`. -/
def readSeries (room : Nat) (item : Symbols → Scan α) (s : Symbols) : Scan (List α) :=
  match skipBlank s with
  | some '[' :: rest =>
      if room = 0 then .error .malformed
      else
        match readElements
          (fun acc s =>
            match item s with
            | .error e => .error e
            | .ok (v, rest) => .ok (v :: acc, rest))
          (rest.length + 1) true [] rest with
        | .error e => .error e
        | .ok (acc, rest) => .ok (acc.reverse, rest)
  | s => .error (mismatch s)

/-! ## Whole texts -/

/-- How many containers may be open at once. -/
def maxRoom : Nat :=
  127

/-- What `reader` reads from the whole of `s`; only blanks may follow. -/
def document (reader : Symbols → Scan α) (s : Symbols) : Except Fault α :=
  match reader s with
  | .error e => .error e
  | .ok (a, rest) => if skipBlank rest = [] then .ok a else .error .malformed

end Json
end EntityCache
