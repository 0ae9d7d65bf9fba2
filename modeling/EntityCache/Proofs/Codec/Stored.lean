import EntityCache.Entry
import EntityCache.Record
import EntityCache.Store.Blob
import EntityCache.Proofs.Codec.Values

/-!
# Stored forms read back

* `Snapshot.reread`, `Entry.reread`: what a stored entity and a stored result read back as.
* `Snapshot.decode_text`, `Entry.decode_text`: the same from their bytes.
-/

namespace EntityCache

open Json

/-! ## Bytes -/

namespace Blob

variable {α : Type} {reader : Symbols → Except Fault α} {key : String}

/-- The text of an object is not taken for compressed data. -/
theorem isCompressed_brace (l : List Char) :
    isCompressed (String.ofList ('{' :: l)).toUTF8 = false := by
  -- The first byte of the text is the brace, and that does not begin a frame.
  have hbytes : (String.ofList ('{' :: l)).toUTF8 = ('{' :: l).utf8Encode := by
    simp only [String.toUTF8_eq_toByteArray, String.toByteArray_ofList]
  have hfirst : bytes ('{' :: l).utf8Encode = 123 :: l.flatMap String.utf8EncodeChar := by
    simp [bytes, List.utf8Encode]
    rfl
  simp only [isCompressed, hbytes, hfirst]
  rfl

theorem encode_eq (key text : String) : encode key text = .ok text.toUTF8 := rfl

/-- The bytes of an object are read as its text. -/
theorem decode_object {l : List Char} {r : Option α}
    (hreader : (reader (Json.symbols ('{' :: l))).toOption = r) :
    (decode reader key (String.ofList ('{' :: l)).toUTF8).toOption = r := by
  simp only [decode, unpack, isCompressed_brace, if_neg Bool.false_ne_true]
  simp only [symbols_toUTF8, symbolsOf_ofList]
  simp only [← hreader]
  cases reader (Json.symbols ('{' :: l)) <;> rfl

/-- Bytes that cannot be decoded concern one entry only. -/
theorem isCodec_of_decode {stored : Blob} {e : StoreError} :
    decode reader key stored = .error e → e.isCodec = true := by
  intro h
  simp only [decode] at h
  cases hraw : unpack stored with
  | error failure =>
      simp only [hraw] at h
      cases h
      rfl
  | ok raw =>
      simp only [hraw] at h
      cases hread : reader raw.symbols with
      | error fault =>
          simp only [hread] at h
          cases h
          rfl
      | ok a =>
          simp only [hread] at h
          cases h

end Blob

/-! ## Entities -/

namespace Snapshot

/-- What the fields of a snapshot read back as, with room for so many open containers. -/
def rereadFields (s : Snapshot) (room : Nat) : Option (List (String × Value)) :=
  if room - 1 = 0 then none
  else (Value.rereadFields s.fields.bindings (room - 2)).map Assoc.ofList

/-- What the text of a snapshot reads back as. -/
def reread (s : Snapshot) (room : Nat) : Option Snapshot :=
  if room = 0 then none else (s.rereadFields room).map (fun l => ⟨s.guid, .ofList l⟩)

/-- The members of the text of a snapshot. -/
def members (s : Snapshot) : List (String × List Char) :=
  [("guid", quoted s.guid), ("fields", objectChars (Value.fieldChars s.fields.bindings))]

/-- What a member adds to a draft. -/
def rereadMember (s : Snapshot) (room : Nat) (m : String × List Char) (d : Draft) : Option Draft :=
  if m.1 = "guid" then some { d with guid := some s.guid }
  else (s.rereadFields room).map (fun l => { d with fields := l })

theorem mem_members {s : Snapshot} {m : String × List Char} (hm : m ∈ s.members) :
    m = ("guid", quoted s.guid) ∨
      m = ("fields", objectChars (Value.fieldChars s.fields.bindings)) := by
  simpa [members] using hm

theorem reads_member (s : Snapshot) (room : Nat) {m : String × List Char} (hm : m ∈ s.members)
    (d : Draft) : Reads (readField room m.1 d) m.2 (s.rereadMember room m d) := by
  rcases mem_members hm with rfl | rfl
  · exact (reads_text s.guid).map (fun guid => ({ d with guid := some guid } : Draft))
  · exact (Value.reads_object s.fields.bindings (room - 1)).map
      (fun l => ({ d with fields := l } : Draft))

/-- The text of a snapshot is read as it should. -/
theorem reads_chars (s : Snapshot) (room : Nat) : Reads (read room) s.chars (s.reread room) := by
  have hknown : ∀ m ∈ s.members, m.1 ∈ fieldNames := by
    intro m hm
    rcases mem_members hm with rfl | rfl <;> simp [fieldNames]
  have hread : Reads (read room) (objectChars s.members) _ :=
    reads_record hknown (by simp [members]) (fun m hm d => s.reads_member room hm d)
  have hfold : s.members.foldlM (fun d m => s.rereadMember room m d) ⟨none, []⟩ =
      (s.rereadFields room).map (fun l => ⟨some s.guid, l⟩) := by
    simp [members, rereadMember]
  simp only [hfold] at hread
  simp only [reread]
  cases hfields : s.rereadFields room with
  | none =>
      simp only [hfields] at hread
      exact hread
  | some l =>
      simp only [hfields] at hread
      exact hread

/-- What the bytes of a snapshot decode to. -/
theorem decode_text (s : Snapshot) (key : String) :
    (Blob.decode ofSymbols? key s.text.toUTF8).toOption = s.reread maxRoom :=
  Blob.decode_object (document_of_reads (s.reads_chars maxRoom))

theorem guid_reread {s s' : Snapshot} {room : Nat} :
    s.reread room = some s' → s'.guid = s.guid := by
  intro h
  simp only [reread] at h
  split at h
  · cases h
  · rcases Option.map_eq_some_iff.mp h with ⟨l, -, rfl⟩
    rfl

end Snapshot

/-! ## Results -/

/-- What the text of an integer reads back as, within bounds. -/
def rereadInteger (low high n : Int) : Option Int :=
  (readInteger low high (symbols (intChars n))).toOption.map Prod.fst

/-- The integer that a number is, within bounds. -/
def integer? (low high : Int) : Number → Option Int
  | .int n => if low ≤ n ∧ n ≤ high then some n else none
  | .float _ => none

/-- What has been read, checked against bounds. -/
def checked (low high : Int) (r : Scan Number) : Scan Int :=
  match r with
  | .error e => .error e
  | .ok (.int n, rest) => if low ≤ n ∧ n ≤ high then .ok (n, rest) else .error .unexpected
  | .ok (.float _, _) => .error .unexpected

theorem toOption_checked (low high : Int) (x : Number) (rest : Symbols) :
    (checked low high (.ok (x, rest))).toOption =
      (integer? low high x).map (fun n => (n, rest)) := by
  cases x with
  | int n =>
      by_cases hn : low ≤ n ∧ n ≤ high
      · simp [checked, integer?, hn, Except.toOption]
      · simp [checked, integer?, hn, Except.toOption]
  | float _ =>
      rfl

/-- A number is read without a look at what follows, and so is a checked one. -/
theorem local_checked (low high : Int) (negative : Bool) {l : List Char} (hl : Numeral l) :
    Local (fun s => checked low high (readNumber negative s)) l := by
  rcases local_readNumber negative hl with ⟨r, hr⟩
  refine ⟨r.bind (integer? low high), ?_⟩
  intro rest hrest
  rcases Reads.cases hr hrest with ⟨e, hread, rfl⟩ | ⟨x, hread, rfl⟩
  · simp only [hread]
    rfl
  · simp only [hread]
    exact toOption_checked low high x rest

/-- Behind a first digit stands a number, which is checked. -/
theorem readInteger_digit (low high : Int) {c : Char} (hc : isDigit c = true) (rest : Symbols) :
    readInteger low high (some c :: rest) =
      checked low high (readNumber false (some c :: rest)) := by
  have hminus : c ≠ '-' := by
    rintro rfl
    cases hc
  simp only [readInteger, skipBlank_cons (Value.isBlank_of_isDigit hc)]
  simp only [if_neg hminus, hc, if_true]
  rfl

/-- An integer is read without a look at what follows. -/
theorem local_readInteger (low high n : Int) : Local (readInteger low high) (intChars n) := by
  rcases numeral_intChars n with ⟨l, hl, hne, hchars⟩
  simp only [hchars]
  split
  · exact local_checked low high true hl
  · rcases List.exists_cons_of_ne_nil hne with ⟨c, l, rfl⟩
    rcases hl.head with hc | rfl | rfl
    · rcases local_checked low high false hl with ⟨r, hr⟩
      refine ⟨r, ?_⟩
      intro rest hrest
      simp only [← hr rest hrest, symbols_cons, List.cons_append, readInteger_digit low high hc]
    -- A point or an `e` does not start a number.
    · exact ⟨none, fun rest _ => rfl⟩
    · exact ⟨none, fun rest _ => rfl⟩

theorem reads_integer (low high n : Int) :
    Reads (readInteger low high) (intChars n) (rereadInteger low high n) :=
  (local_readInteger low high n).reads

namespace Entry

/-- What the text of a cached result reads back as.  It has no nested containers. -/
def reread (e : Entry) : Option Entry := do
  let ttl ← rereadInteger 0 maxTtl e.ttl
  let cachedAt ← rereadInteger minTime maxTime e.cachedAt
  let lastAccessed ← rereadInteger minTime maxTime e.lastAccessed
  pure ⟨e.query, e.data, ttl.toNat, cachedAt, lastAccessed, none⟩

/-- The members of the text of a cached result. -/
def members (e : Entry) : List (String × List Char) :=
  [("query_id", quoted e.query), ("data", quoted e.data), ("ttl_ms", intChars e.ttl),
    ("cached_at", intChars e.cachedAt), ("last_accessed", intChars e.lastAccessed)]

/-- What a member adds to a draft. -/
def rereadMember (e : Entry) (m : String × List Char) (d : Draft) : Option Draft :=
  if m.1 = "query_id" then some { d with query := some e.query }
  else if m.1 = "data" then some { d with data := some e.data }
  else if m.1 = "ttl_ms" then
    (rereadInteger 0 maxTtl e.ttl).map (fun x => { d with ttl := some x })
  else if m.1 = "cached_at" then
    (rereadInteger minTime maxTime e.cachedAt).map (fun x => { d with cachedAt := some x })
  else
    (rereadInteger minTime maxTime e.lastAccessed).map (fun x => { d with lastAccessed := some x })

theorem mem_members {e : Entry} {m : String × List Char} (hm : m ∈ e.members) :
    m = ("query_id", quoted e.query) ∨ m = ("data", quoted e.data) ∨
      m = ("ttl_ms", intChars e.ttl) ∨ m = ("cached_at", intChars e.cachedAt) ∨
      m = ("last_accessed", intChars e.lastAccessed) := by
  simpa [members] using hm

theorem reads_member {e : Entry} {m : String × List Char} (hm : m ∈ e.members) (d : Draft) :
    Reads (readField m.1 d) m.2 (e.rereadMember m d) := by
  rcases mem_members hm with rfl | rfl | rfl | rfl | rfl
  · exact (reads_text e.query).map (fun x => ({ d with query := some x } : Draft))
  · exact (reads_text e.data).map (fun x => ({ d with data := some x } : Draft))
  · exact (reads_integer 0 maxTtl e.ttl).map (fun x => ({ d with ttl := some x } : Draft))
  · exact (reads_integer minTime maxTime e.cachedAt).map
      (fun x => ({ d with cachedAt := some x } : Draft))
  · exact (reads_integer minTime maxTime e.lastAccessed).map
      (fun x => ({ d with lastAccessed := some x } : Draft))

/-- The members together are the cached result read back. -/
theorem foldlM_members (e : Entry) :
    (e.members.foldlM (fun d m => e.rereadMember m d) ⟨none, none, none, none, none⟩).bind
      (fun d => (finish d).toOption) = e.reread := by
  simp only [members, rereadMember, List.foldlM_cons, List.foldlM_nil, reread]
  cases rereadInteger 0 maxTtl e.ttl <;> cases rereadInteger minTime maxTime e.cachedAt <;>
    cases rereadInteger minTime maxTime e.lastAccessed <;> rfl

/-- The text of a cached result is read as it should. -/
theorem reads_chars (e : Entry) {room : Nat} (hroom : room ≠ 0) :
    Reads (read room) e.chars e.reread := by
  have hknown : ∀ m ∈ e.members, m.1 ∈ fieldNames := by
    intro m hm
    rcases mem_members hm with rfl | rfl | rfl | rfl | rfl <;> simp [fieldNames]
  have hread : Reads (read room) (objectChars e.members) _ :=
    reads_record hknown (by simp [members]) (fun m hm d => reads_member hm d)
  simp only [if_neg hroom, foldlM_members] at hread
  exact hread

/-- What the bytes of a cached result decode to. -/
theorem decode_text (e : Entry) (key : String) :
    (Blob.decode ofSymbols? key e.text.toUTF8).toOption = e.reread :=
  Blob.decode_object (document_of_reads (e.reads_chars (by decide)))

/-- The skeleton is read from the same text. -/
theorem data_reread {e e' : Entry} : e.reread = some e' → e'.data = e.data ∧ e'.root = none := by
  intro h
  simp only [reread, Option.bind_eq_bind, Option.bind_eq_some_iff, Option.pure_def,
    Option.some.injEq] at h
  rcases h with ⟨ttl, -, cachedAt, -, lastAccessed, -, rfl⟩
  exact ⟨rfl, rfl⟩

end Entry
end EntityCache
