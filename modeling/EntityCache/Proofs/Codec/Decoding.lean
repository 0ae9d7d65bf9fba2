import EntityCache.Proofs.Codec.Accepted
import EntityCache.Proofs.Codec.Plain
import EntityCache.Proofs.Codec.Stored
import EntityCache.Proofs.Normalize.Inherited

/-!
# What was encoded is decoded

Stored forms whose numbers are integers in range and whose text is nested no deeper than is read
lose nothing but their marks:

* `Number.Whole`: what a whole number in range, as a text may spell it, is read as.
* `Skeleton.Exact`: in order, and no number but integers in range.
* `Blob.Restores`: a text that is stored, and from whose bytes something is decoded.
* `Skeleton.assemble_plain_plain`: a skeleton without its marks shows the same data.
* `decoded_of_encoded`: skeletons, entities and results come back, and a skeleton that was accepted
  in any layout comes back from its own text.
-/

namespace EntityCache

open Json

/-! ## Whole numbers -/

namespace Number

/-- What a whole number in range is read as.  The text `-0` is read as a float. -/
def Whole (x : Number) : Prop :=
  ∃ (negative : Bool) (n : Nat),
    n ≤ (if negative then maxNegated else maxWord) ∧ x = whole negative n

theorem InRange.whole {x : Number} (h : x.InRange) : x.Whole := by
  cases x with
  | float x =>
      cases h
  | int n =>
      rcases h with ⟨hlow, hhigh⟩
      cases n with
      | ofNat n =>
          exact ⟨false, n, Int.ofNat_le.mp hhigh, rfl⟩
      | negSucc n =>
          have hsize : n + 1 ≤ maxNegated := by omega
          have hsmall : ¬ (n + 1 = 0 ∨ maxNegated < n + 1) := by omega
          refine ⟨true, n + 1, hsize, ?_⟩
          simp only [Json.whole, if_true, if_neg hsmall]
          rfl

/-- The whole numbers in range are the integers in range and the negative zero. -/
theorem whole_iff {x : Number} : x.Whole ↔ x.InRange ∨ x = .float ⟨true, 0⟩ := by
  constructor
  · rintro ⟨negative, n, hn, rfl⟩
    cases negative with
    | false =>
        left
        exact ⟨Int.le_trans (by decide) (Int.natCast_nonneg n), Int.ofNat_le.mpr hn⟩
    | true =>
        -- Zero behind a sign is a float; any other whole number is an integer, if it fits.
        by_cases hzero : n = 0
        · right
          rw [hzero]
          rfl
        · left
          have hsize : n ≤ maxNegated := hn
          have hsmall : ¬ (n = 0 ∨ maxNegated < n) := by omega
          simp only [Json.whole, if_true, if_neg hsmall]
          exact ⟨by omega, Int.le_trans (by omega) (Int.natCast_nonneg maxWord)⟩
  · rintro (hrange | rfl)
    · exact hrange.whole
    · exact ⟨true, 0, Nat.zero_le _, rfl⟩

theorem Whole.kept {x : Number} (h : x.Whole) : x.Kept := by
  rcases whole_iff.mp h with hrange | rfl
  · exact reread_of_inRange hrange
  -- The negative zero is written with a point.
  · rfl

end Number

/-! ## Bytes -/

namespace Blob

variable {α : Type} {reader : Symbols → Except Fault α}

/-- The text is stored in bytes that are not taken for compressed data, and they are decoded as
`a`. -/
def Restores (reader : Symbols → Except Fault α) (text : String) (a : α) : Prop :=
  ∀ key, ∃ stored, encode key text = .ok stored ∧ stored.isCompressed = false ∧
    decode reader key stored = .ok a

theorem eq_ok_of_toOption {ε : Type} {x : Except ε α} {a : α} (h : x.toOption = some a) :
    x = .ok a := by
  cases x with
  | error e =>
      cases h
  | ok b =>
      cases h
      rfl

/-- The text of an object is stored as it is. -/
theorem restores_object {l : List Char} {a : α}
    (hread : (reader (Json.symbols ('{' :: l))).toOption = some a) :
    Restores reader (String.ofList ('{' :: l)) a := by
  intro key
  refine ⟨_, encode_eq key _, isCompressed_brace l, ?_⟩
  exact eq_ok_of_toOption (decode_object hread)

end Blob

/-! ## Entities and results -/

theorem Snapshot.restores_text {s : Snapshot} (h : ∀ b ∈ s.fields.bindings, b.2.Exact)
    (hlevels : s.nesting ≤ maxRoom) : Blob.Restores Snapshot.ofSymbols? s.text s.plain := by
  have hreread := Snapshot.reread_eq_plain (fun b hb => (h b hb).stable) hlevels
  exact Blob.restores_object ((document_of_reads (s.reads_chars maxRoom)).trans hreread)

theorem Entry.restores_text {e : Entry} (httl : e.ttl ≤ maxTtl) (hcached : Timely e.cachedAt)
    (haccessed : Timely e.lastAccessed) :
    Blob.Restores Entry.ofSymbols? e.text { e with root := none } := by
  have hreread := Entry.reread_eq httl hcached haccessed
  exact Blob.restores_object ((document_of_reads (e.reads_chars (by decide))).trans hreread)

/-! ## Skeletons -/

namespace Skeleton

/-- The members of a skeleton are in order, and the scalars have no numbers but integers in
range. -/
structure Exact (n : Skeleton) : Prop extends InOrder n where
  values : ∀ b ∈ n.scalars, b.2.Exact

theorem Exact.stable {n : Skeleton} (h : n.Exact) : n.Stable :=
  ⟨h.toInOrder, fun b hb => (h.values b hb).stable⟩

theorem Every.mono {P Q : Skeleton → Prop} (h : ∀ n, P n → Q n) {n : Skeleton} (hn : n.Every P) :
    n.Every Q :=
  Every.and_imp (fun n hP _ => h n hP) n hn hn

mutual

/-- Marks are lost once. -/
theorem plain_plain : ∀ n : Skeleton, n.plain.plain = n.plain
  | ⟨guid, scalars, refs, lists⟩ => by
      simp only [plain, Value.plainFields_plain, plainRefs_plain refs, plainLists_plain lists]

theorem plainRefs_plain : ∀ refs : List (String × Skeleton),
    plainRefs (plainRefs refs) = plainRefs refs
  | [] => rfl
  | (k, child) :: rest => by
      simp only [plainRefs, plain_plain child, plainRefs_plain rest]

theorem plainLists_plain : ∀ lists : List (String × List Skeleton),
    plainLists (plainLists lists) = plainLists lists
  | [] => rfl
  | (k, items) :: rest => by
      simp only [plainLists, plainItems_plain items, plainLists_plain rest]

theorem plainItems_plain : ∀ items : List Skeleton,
    plainItems (plainItems items) = plainItems items
  | [] => rfl
  | child :: rest => by
      simp only [plainItems, plain_plain child, plainItems_plain rest]

end

/-- Over any records a skeleton without its marks shows the same data. -/
theorem assemble_plain_plain (view : Normalize.FieldView) (n : Skeleton) :
    (Normalize.assemble view n.plain).plain = (Normalize.assemble view n).plain := by
  -- Both show what the skeleton without marks shows over the records without theirs.
  let bare : Normalize.FieldView := fun guid => (view guid).map Value.plainFields
  have hbare : ∀ guid, (bare guid).getD [] = Value.plainFields ((view guid).getD []) := by
    intro guid
    show ((view guid).map Value.plainFields).getD [] = _
    cases view guid <;> rfl
  calc
    (Normalize.assemble view n.plain).plain = Normalize.assemble bare n.plain.plain :=
      (Normalize.assemble_plain hbare n.plain).symm
    _ = Normalize.assemble bare n.plain := by rw [plain_plain]
    _ = (Normalize.assemble view n).plain := Normalize.assemble_plain hbare n

/-- With few enough levels the text of a skeleton is read as the skeleton without its marks. -/
theorem ofText?_text_of_exact {n : Skeleton} (h : n.Every Exact) (hlevels : n.nesting ≤ maxRoom) :
    ofText? n.text = .ok n.plain := by
  have hreread := reread_eq_plain n maxRoom (Every.mono (fun _ => Exact.stable) h) hlevels
  exact Blob.eq_ok_of_toOption ((ofText?_text n).trans hreread)

theorem restores_text {n : Skeleton} (h : n.Every Exact) (hlevels : n.nesting ≤ maxRoom) :
    Blob.Restores (document (read maxRoom)) n.text n.plain := by
  have hreread := reread_eq_plain n maxRoom (Every.mono (fun _ => Exact.stable) h) hlevels
  have hread := (document_of_reads (reads_chars n maxRoom maxRoom (Nat.le_refl _))).trans hreread
  rw [chars_eq] at hread
  rw [text, chars_eq]
  exact Blob.restores_object hread

/-- However the text is laid out, a skeleton of whole numbers that is read from it is read again
from its own text. -/
theorem ofText?_text_of_accepted {text : String} {n : Skeleton} (hn : ofText? text = .ok n)
    (hnumbers : n.Every (HasNumbers Number.Whole)) : ofText? n.text = .ok n := by
  have hkept : n.Every (HasNumbers Number.Kept) :=
    Every.mono (fun n => Value.everyNumberFields_mono (fun _ => Number.Whole.kept) n.scalars)
      hnumbers
  have hreread := reread_of_asRead (asRead_of_ofText? hn) hkept
  exact Blob.eq_ok_of_toOption ((ofText?_text n).trans hreread)

end Skeleton

/-! ## All stored forms -/

/-- What was encoded is decoded, without its marks; and what was accepted is accepted again. -/
theorem decoded_of_encoded :
    (∀ n : Skeleton, n.Every Skeleton.Exact → n.nesting ≤ maxRoom →
      Skeleton.ofText? n.text = .ok n.plain ∧
        Blob.Restores (document (Skeleton.read maxRoom)) n.text n.plain ∧
        ∀ view, (Normalize.assemble view n.plain).plain = (Normalize.assemble view n).plain) ∧
    (∀ s : Snapshot, (∀ b ∈ s.fields.bindings, b.2.Exact) → s.nesting ≤ maxRoom →
      Blob.Restores Snapshot.ofSymbols? s.text s.plain) ∧
    (∀ e : Entry, e.ttl ≤ maxTtl → Entry.Timely e.cachedAt → Entry.Timely e.lastAccessed →
      Blob.Restores Entry.ofSymbols? e.text { e with root := none }) ∧
    (∀ text n, Skeleton.ofText? text = .ok n → n.Every (Skeleton.HasNumbers Number.Whole) →
      Skeleton.ofText? n.text = .ok n) := by
  refine ⟨?skeletons, ?entities, ?results, ?accepted⟩
  case skeletons =>
    intro n hn hlevels
    exact ⟨Skeleton.ofText?_text_of_exact hn hlevels, Skeleton.restores_text hn hlevels,
      fun view => Skeleton.assemble_plain_plain view n⟩
  case entities =>
    intro s hs hlevels
    exact Snapshot.restores_text hs hlevels
  case results =>
    intro e httl hcached haccessed
    exact Entry.restores_text httl hcached haccessed
  case accepted =>
    intro text n hn hnumbers
    exact Skeleton.ofText?_text_of_accepted hn hnumbers

/-- The buyer of an order, with a marked id and the largest integer. -/
def orderBuyer : Skeleton :=
  ⟨none, [("id", .id "B\n\"1\""), ("serial", .num (.int 18446744073709551615))], [], []⟩

/-- An order with its buyer and two items. -/
def orderSkeleton : Skeleton :=
  ⟨some "O1", [], [("buyer", orderBuyer)], [("items", [⟨some "I1", [], [], []⟩, .empty])]⟩

/-- What is stored of the order itself. -/
def orderFields : Snapshot :=
  ⟨"O1", .ofList [("buyer", .id "B1"), ("debt", .num (.int (-9223372036854775808)))]⟩

/-- The order as the latest result of a query. -/
def orderResult : Entry :=
  ⟨"orders", orderSkeleton.text, 60000, 1700000000000, 1700000000000, some orderSkeleton⟩

/-- A skeleton given by position, with a field that is not known. -/
def listedText : String :=
  "[\"L\",\x7b\"debt\":-0\x7d,\x7b\"owner\":\x7b\"zip\":1\x7d\x7d]"

def listedSkeleton : Skeleton :=
  ⟨some "L", [("debt", .num (.float ⟨true, 0⟩))], [("owner", .empty)], []⟩

theorem exact_orderSkeleton : orderSkeleton.Every Skeleton.Exact := by
  have hkeys : Key.before "id" "serial" = true := by decide
  have hserial : (Value.num (.int 18446744073709551615)).Exact := Value.exact_int (by decide)
  have hbuyer : orderBuyer.Exact := by
    refine ⟨⟨?_, Assoc.sorted_nil, Assoc.sorted_nil⟩, ?_⟩
    · simp [orderBuyer, Assoc.Sorted, hkeys]
    · simp [orderBuyer, Value.exact_id, hserial]
  have hbare : ∀ guid, (⟨guid, [], [], []⟩ : Skeleton).Exact := fun guid =>
    ⟨⟨Assoc.sorted_nil, Assoc.sorted_nil, Assoc.sorted_nil⟩,
      fun b hb => absurd hb List.not_mem_nil⟩
  have hown : orderSkeleton.Exact :=
    ⟨⟨Assoc.sorted_nil, List.pairwise_singleton _ _, List.pairwise_singleton _ _⟩,
      fun b hb => absurd hb List.not_mem_nil⟩
  exact ⟨hown, ⟨⟨hbuyer, trivial, trivial⟩, trivial⟩,
    ⟨⟨hbare _, trivial, trivial⟩, ⟨hbare _, trivial, trivial⟩, trivial⟩, trivial⟩

/-- An order, its fields and a result come back from their bytes, and the listed skeleton from the
text that is written for it. -/
theorem decoded_of_encoded_order :
    Skeleton.ofText? orderSkeleton.text = .ok orderSkeleton.plain ∧
      Blob.Restores (document (Skeleton.read maxRoom)) orderSkeleton.text orderSkeleton.plain ∧
      Blob.Restores Snapshot.ofSymbols? orderFields.text orderFields.plain ∧
      Blob.Restores Entry.ofSymbols? orderResult.text { orderResult with root := none } ∧
      Skeleton.ofText? listedText = .ok listedSkeleton ∧
      Skeleton.ofText? listedSkeleton.text = .ok listedSkeleton := by
  have hfields : ∀ b ∈ orderFields.fields.bindings, b.2.Exact := by
    intro b hb
    have hlisted := Assoc.mem_of_mem_ofList hb
    simp only [List.mem_cons, List.not_mem_nil, or_false] at hlisted
    rcases hlisted with rfl | rfl
    · exact Value.exact_id "B1"
    · exact Value.exact_int (by decide)
  have htime : Entry.Timely 1700000000000 := ⟨by decide, by decide⟩
  have hlisted : Skeleton.ofText? listedText = .ok listedSkeleton := by
    simp only [Skeleton.ofText?, symbolsOf, listedText, String.reduceToList]
    rfl
  have hwhole : listedSkeleton.Every (Skeleton.HasNumbers Number.Whole) :=
    ⟨⟨⟨true, 0, by decide, rfl⟩, trivial⟩, ⟨⟨trivial, trivial, trivial⟩, trivial⟩, trivial⟩
  rcases decoded_of_encoded with ⟨hskeletons, hsnapshots, hresults, haccepted⟩
  rcases hskeletons orderSkeleton exact_orderSkeleton (by decide) with ⟨hread, hrestores, -⟩
  exact ⟨hread, hrestores, hsnapshots orderFields hfields (by decide),
    hresults orderResult (by decide) htime htime, hlisted,
    haccepted listedText listedSkeleton hlisted hwhole⟩

end EntityCache
