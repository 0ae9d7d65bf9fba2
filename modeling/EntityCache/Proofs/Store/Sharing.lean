import EntityCache.Proofs.Store.Places

/-!
# Which scopes share a store file

A store file is named by the hash of a text in which every part of a scope ends with the separator.
The parts themselves are arbitrary: they may hold the separator, and a user may spell the
placeholder for a signed-out one.

* `Text.Hex.encode_injective`, `bytesOf_injective`: neither the digits nor the bytes lose anything.
* `Scope.joined`, `Scope.preimage_eq_iff`: what the hashed text tells apart.
* `Scope.Unmarked`, `Scope.joined_eq_iff`: without separators that is every part.
* `Scope.sameStore_iff`: the scopes that share a store file, for arbitrary parts.
-/

namespace EntityCache

/-! ## Bytes and digits -/

namespace Text.Hex

theorem digit_inj {m n : Nat} (hm : m < 16) (hn : n < 16) :
    digit m = digit n → m = n := by
  intro h
  have hdigits : ∀ m n : Fin 16, digit m = digit n → m = n := by decide
  exact congrArg Fin.val (hdigits ⟨m, hm⟩ ⟨n, hn⟩ h)

theorem encodeByte_inj {a b : UInt8} {as bs : List Char} :
    encodeByte a ++ as = encodeByte b ++ bs → a = b ∧ as = bs := by
  intro h
  have ha := a.toNat_lt
  have hb := b.toNat_lt
  simp only [encodeByte, List.cons_append, List.nil_append, List.cons.injEq] at h
  have high : a.toNat / 16 = b.toNat / 16 := digit_inj (by omega) (by omega) h.1
  have low : a.toNat % 16 = b.toNat % 16 := digit_inj (by omega) (by omega) h.2.1
  exact ⟨UInt8.toNat_inj.mp (by omega), h.2.2⟩

/-- Digit pairs name one list of bytes. -/
theorem encode_injective : Function.Injective encode := by
  intro xs ys h
  have hdigits := String.ofList_injective h
  clear h
  induction xs generalizing ys with
  | nil =>
      cases ys with
      | nil =>
          rfl
      | cons y ys =>
          cases hdigits
  | cons x xs ih =>
      cases ys with
      | nil =>
          cases hdigits
      | cons y ys =>
          have hbyte := encodeByte_inj (by simpa only [List.flatMap_cons] using hdigits)
          simp only [hbyte.1, ih hbyte.2]

end Text.Hex

@[simp] theorem bytesOf_append (a b : String) : bytesOf (a ++ b) = bytesOf a ++ bytesOf b := by
  simp [bytesOf]

theorem bytesOf_injective : Function.Injective bytesOf := by
  intro a b h
  have hdata : a.toByteArray.data = b.toByteArray.data := Array.toList_inj.mp h
  exact String.toByteArray_inj.mp (ByteArray.ext hdata)

/-! ## The hashed text -/

namespace Scope

/-- The separator as a character of a text. -/
def mark : Char :=
  '\x1f'

/-- Project, user and host, with separators in between. -/
def joined (s : Scope) : String :=
  s.project ++ String.singleton mark ++ s.user ++ String.singleton mark ++ s.host

/-- The separator byte is the separator character. -/
theorem preimage_eq (s : Scope) :
    s.preimage = bytesOf (s.backing.label ++ String.singleton mark ++ s.joined ++
      String.singleton mark) := by
  have hmark : bytesOf (String.singleton mark) = [separator] := by decide
  simp only [preimage, joined, List.flatMap_cons, List.flatMap_nil, List.append_nil,
    bytesOf_append, hmark, List.append_assoc]

/-- A text is cut at its first separator in one way. -/
theorem cut_inj {front front' rest rest' : List Char} (h : mark ∉ front) (h' : mark ∉ front') :
    front ++ mark :: rest = front' ++ mark :: rest' → front = front' ∧ rest = rest' := by
  intro hsame
  induction front generalizing front' with
  | nil =>
      cases front' with
      | nil =>
          exact ⟨rfl, List.tail_eq_of_cons_eq hsame⟩
      | cons c cs =>
          exact absurd (List.head_eq_of_cons_eq hsame ▸ List.mem_cons_self) h'
  | cons c cs ih =>
      cases front' with
      | nil =>
          exact absurd (List.head_eq_of_cons_eq hsame ▸ List.mem_cons_self) h
      | cons c' cs' =>
          simp only [List.mem_cons, not_or] at h h'
          simp only [List.cons_append, List.cons.injEq] at hsame
          rcases ih h.2 h'.2 hsame.2 with ⟨hcs, hrest⟩
          exact ⟨List.cons_eq_cons.mpr ⟨hsame.1, hcs⟩, hrest⟩

theorem mark_notMem_label (b : Backing) : mark ∉ b.label.toList := by
  cases b with
  | memory =>
      decide
  | persistent =>
      decide

theorem label_injective : Function.Injective Backing.label := by
  intro b b' h
  cases b with
  | memory =>
      cases b' with
      | memory =>
          rfl
      | persistent =>
          exact absurd h (by decide)
  | persistent =>
      cases b' with
      | memory =>
          exact absurd h (by decide)
      | persistent =>
          rfl

variable {s t : Scope}

/-- The hash tells backings apart, and the other parts as far as their joined text does. -/
theorem preimage_eq_iff :
    s.preimage = t.preimage ↔ s.backing = t.backing ∧ s.joined = t.joined := by
  constructor
  · intro h
    simp only [preimage_eq] at h
    have htext := congrArg String.toList (bytesOf_injective h)
    simp only [String.toList_append, String.toList_singleton, List.append_assoc,
      List.cons_append, List.nil_append] at htext
    rcases cut_inj (mark_notMem_label _) (mark_notMem_label _) htext with ⟨hlabel, hrest⟩
    exact ⟨label_injective (String.toList_inj.mp hlabel),
      String.toList_inj.mp (List.append_cancel_right hrest)⟩
  · intro ⟨hbacking, hjoined⟩
    simp only [preimage_eq, hbacking, hjoined]

/-! ## Parts without separators -/

/-- No part holds the separator. -/
def Unmarked (s : Scope) : Prop :=
  mark ∉ s.project.toList ∧ mark ∉ s.user.toList ∧ mark ∉ s.host.toList

instance (s : Scope) : Decidable s.Unmarked :=
  inferInstanceAs (Decidable (_ ∧ _))

theorem toList_joined (s : Scope) : s.joined.toList =
    s.project.toList ++ mark :: (s.user.toList ++ mark :: s.host.toList) := by
  simp only [joined, String.toList_append, String.toList_singleton, List.append_assoc,
    List.cons_append, List.nil_append]

theorem count_joined (s : Scope) : s.joined.toList.count mark =
    2 + s.project.toList.count mark + s.user.toList.count mark + s.host.toList.count mark := by
  simp only [toList_joined, List.count_append, List.count_cons_self]
  omega

/-- A joined text with no separators but the two in between comes from such parts only. -/
theorem Unmarked.of_joined_eq (hs : s.Unmarked) : s.joined = t.joined → t.Unmarked := by
  intro h
  have hcount := s.count_joined
  simp only [h, count_joined, List.count_eq_zero_of_not_mem hs.1,
    List.count_eq_zero_of_not_mem hs.2.1, List.count_eq_zero_of_not_mem hs.2.2] at hcount
  refine ⟨List.count_eq_zero.mp ?_, List.count_eq_zero.mp ?_, List.count_eq_zero.mp ?_⟩
  · omega
  · omega
  · omega

/-- Without separators in the parts of one scope the joined text is that of no other. -/
theorem joined_eq_iff (hs : s.Unmarked) :
    s.joined = t.joined ↔ s.project = t.project ∧ s.user = t.user ∧ s.host = t.host := by
  constructor
  · intro h
    have ht := hs.of_joined_eq h
    have htext := congrArg String.toList h
    simp only [toList_joined] at htext
    rcases cut_inj hs.1 ht.1 htext with ⟨hproject, hrest⟩
    rcases cut_inj hs.2.1 ht.2.1 hrest with ⟨huser, hhost⟩
    exact ⟨String.toList_inj.mp hproject, String.toList_inj.mp huser, String.toList_inj.mp hhost⟩
  · intro ⟨hproject, huser, hhost⟩
    simp only [joined, hproject, huser, hhost]

/-- Between scopes of one project and host the joined text tells every two users apart. -/
theorem joined_eq_iff_user (hproject : s.project = t.project) (hhost : s.host = t.host) :
    s.joined = t.joined ↔ s.user = t.user := by
  simp only [joined, hproject, hhost, String.append_left_inj, String.append_right_inj]

/-! ## Shared store files -/

/-- The hash has no collision between the texts of two scopes. -/
def HashedApart (s t : Scope) : Prop :=
  Hash.Sha256.digest s.preimage = Hash.Sha256.digest t.preimage → s.preimage = t.preimage

theorem digest_eq_iff (hash : HashedApart s t) :
    s.digest = t.digest ↔ s.backing = t.backing ∧ s.joined = t.joined := by
  calc s.digest = t.digest
      ↔ Hash.Sha256.digest s.preimage = Hash.Sha256.digest t.preimage :=
        Text.Hex.encode_injective.eq_iff
    _ ↔ s.preimage = t.preimage := ⟨hash, fun h => by rw [h]⟩
    _ ↔ s.backing = t.backing ∧ s.joined = t.joined := preimage_eq_iff

theorem fileName_eq_iff : s.fileName = t.fileName ↔ s.digest = t.digest := by
  simp only [fileName, String.append_left_inj]

/-- The users that one scope cannot tell apart: a signed-out one and one with the name of the
placeholder. -/
def SameUser (u v : Option String) : Prop :=
  u = v ∨ (u = none ∧ v = some signedOut) ∨ (u = some signedOut ∧ v = none)

theorem sameUser_iff {u v : Option String} :
    SameUser u v ↔ u.getD signedOut = v.getD signedOut := by
  cases u <;> cases v <;> simp [SameUser, eq_comm]

/-- Two scopes share a store file exactly if their backing and their joined text are the same.
Between two scopes of one project and host, whatever these hold, only a signed-out user and one
named like the placeholder share one; and a scope whose parts hold no separator shares its file with
no scope of another project, user or host at all. -/
theorem sameStore_iff {b b' : Backing} {p p' h h' : String} {u u' : Option String}
    (hash : HashedApart (of b p u h) (of b' p' u' h')) :
    ((of b p u h).fileName = (of b' p' u' h').fileName ↔
      (of b p u h).digest = (of b' p' u' h').digest) ∧
    ((of b p u h).digest = (of b' p' u' h').digest ↔
      b = b' ∧ (of b p u h).joined = (of b' p' u' h').joined) ∧
    (p = p' → h = h' →
      ((of b p u h).digest = (of b' p' u' h').digest ↔ b = b' ∧ SameUser u u')) ∧
    ((of b p u h).Unmarked →
      ((of b p u h).digest = (of b' p' u' h').digest ↔
        b = b' ∧ p = p' ∧ SameUser u u' ∧ h = h')) := by
  refine ⟨fileName_eq_iff, digest_eq_iff hash, ?_, ?_⟩
  · intro hproject hhost
    calc (of b p u h).digest = (of b' p' u' h').digest
        ↔ b = b' ∧ (of b p u h).joined = (of b' p' u' h').joined := digest_eq_iff hash
      _ ↔ b = b' ∧ u.getD signedOut = u'.getD signedOut :=
          and_congr_right' (joined_eq_iff_user hproject hhost)
      _ ↔ b = b' ∧ SameUser u u' := and_congr_right' sameUser_iff.symm
  · intro hunmarked
    calc (of b p u h).digest = (of b' p' u' h').digest
        ↔ b = b' ∧ (of b p u h).joined = (of b' p' u' h').joined := digest_eq_iff hash
      _ ↔ b = b' ∧ p = p' ∧ u.getD signedOut = u'.getD signedOut ∧ h = h' :=
          and_congr_right' (joined_eq_iff hunmarked)
      _ ↔ b = b' ∧ p = p' ∧ SameUser u u' ∧ h = h' := by rw [sameUser_iff]

/-- Two users of one project, one of them with the separator in the name. -/
theorem sameStore_iff_marked :
    HashedApart (of .persistent "a" (some "b\x1fc") "h") (of .persistent "a" (some "b") "h") ∧
    (of .persistent "a" (some "b\x1fc") "h").fileName ≠
      (of .persistent "a" (some "b") "h").fileName := by
  have hash : HashedApart (of .persistent "a" (some "b\x1fc") "h")
      (of .persistent "a" (some "b") "h") := by
    intro h
    exact absurd h (by decide +kernel)
  have hiff := sameStore_iff hash
  refine ⟨hash, fun hsame => ?_⟩
  have huser := ((hiff.2.2.1 rfl rfl).mp (hiff.1.mp hsame)).2
  exact absurd (sameUser_iff.mp huser) (by decide)

/-- A separator inside a part takes the place of the one between two parts. -/
example : (of .persistent "a" (some "b\x1fc") "h").preimage =
    (of .persistent "a\x1fb" (some "c") "h").preimage := by
  decide

end Scope
end EntityCache
