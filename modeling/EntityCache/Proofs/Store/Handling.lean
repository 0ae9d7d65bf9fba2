import EntityCache.Proofs.Store.Within

/-!
# Handling records

What somebody does who holds records of a store, and what a store in a file keeps meanwhile:

* `Record.Edit`: a change of a record.  The id stays, and no dependent is lost.
* `Handling`: a call on a store, a change of a record, with or without saving it, a record that is
  made elsewhere, or one that is let go.
* `Backend.handleAll`, `Backend.saves`: the world after such steps, and the records saved by them.
* `Backend.HandsOut`: what is true of the record that a store hands out; `Backend.AcrossSave`: how
  the records are related that it hands out before and after another one is saved.
* `FileStore.Account`: facts about contents and about records that saving keeps true.
* `FileStore.Tracks`: the facts hold of the file and of every record that is known.
* `Tracks.handleAll`: so they do after any steps.
-/

namespace EntityCache

open Normalize

variable {σ : Type}

/-! ## Changes of records -/

namespace Record

/-- A change of a record. -/
inductive Edit where
  | put (name : String) (v : Value) (requestor : Option QueryKey)
  | addDependent (q : QueryKey)

def edit (r : Record) : Edit → Record
  | .put name v requestor => r.put name v requestor
  | .addDependent q => r.addDependent q

/-- The record after several changes. -/
def editAll (r : Record) (edits : List Edit) : Record :=
  edits.foldl edit r

theorem guid_edit (r : Record) (e : Edit) : (r.edit e).guid = r.guid := by
  cases e with
  | put name v requestor =>
      exact guid_put r name v requestor
  | addDependent q =>
      rfl

theorem mem_addDependent {r : Record} {q : QueryKey} (q' : QueryKey) :
    r.dependents.mem q = true → (r.addDependent q').dependents.mem q = true := by
  intro hq
  simp only [addDependent, KeySet.mem_add, hq, Bool.or_true]

theorem mem_edit {r : Record} {q : QueryKey} (e : Edit) :
    r.dependents.mem q = true → (r.edit e).dependents.mem q = true := by
  intro hq
  cases e with
  | put name v requestor =>
      cases requestor with
      | none =>
          exact hq
      | some q' =>
          exact mem_addDependent (r := { r with fields := r.fields.insert name v }) q' hq
  | addDependent q' =>
      exact mem_addDependent q' hq

@[simp] theorem guid_editAll (r : Record) (edits : List Edit) :
    (r.editAll edits).guid = r.guid := by
  refine List.foldlRecOn (motive := fun s => s.guid = r.guid) edits edit rfl ?_
  intro s hs e _
  exact (guid_edit s e).trans hs

/-- Changes add dependents only. -/
theorem mem_editAll {r : Record} {q : QueryKey} (edits : List Edit) :
    r.dependents.mem q = true → (r.editAll edits).dependents.mem q = true := by
  intro hq
  refine List.foldlRecOn (motive := fun s => s.dependents.mem q = true) edits edit hq ?_
  intro s hs e _
  exact mem_edit e hs

end Record

/-! ## Steps -/

/-- A step of somebody who holds records of a store. -/
inductive Handling where
  | tree (q : QueryKey)
  | setTree (q : QueryKey) (e : Entry)
  | entity (guid : Guid)
  | batch (guids : KeySet Guid)
  | stored (guids : KeySet Guid)
  | counts
  /-- A record is changed and saved. -/
  | update (h : Handle) (edits : List Record.Edit)
  /-- A record is changed, and not saved yet. -/
  | edit (h : Handle) (edits : List Record.Edit)
  /-- A record is made outside the store. -/
  | build (r : Record)
  /-- A record is held no more. -/
  | release (h : Handle)

namespace World

def edit (w : World σ) (h : Handle) (edits : List Record.Edit) : World σ :=
  { w with pool := w.pool.modify h (fun r => r.editAll edits) }

def release (w : World σ) (h : Handle) : World σ :=
  { w with held := w.held.filter (fun i => i != h) }

theorem get?_edit_self {w : World σ} {h : Handle} {r : Record} (edits : List Record.Edit)
    (hr : w.pool.get? h = some r) : (w.edit h edits).pool.get? h = some (r.editAll edits) := by
  simp only [edit, Pool.get?_modify, hr, if_true, Option.map_some]

theorem get?_edit_of_ne (w : World σ) {h i : Handle} (edits : List Record.Edit) (hne : h ≠ i) :
    (w.edit h edits).pool.get? i = w.pool.get? i := by
  simp only [edit, Pool.get?_modify, if_neg hne]

end World

namespace Handling

/-- The record that a step saves. -/
def saved? (s : Handling) (w : World σ) : Option Record :=
  match s with
  | update h edits => (w.pool.get? h).map (fun r => r.editAll edits)
  | _ => none

/-- Whether the step leaves no change unsaved. -/
def isClean : Handling → Bool
  | edit _ _ => false
  | _ => true

end Handling

namespace Backend

/-- The world after a step, whatever its answer is. -/
def handle (b : Backend σ) (s : Handling) (w : World σ) : World σ :=
  match s with
  | .tree q => (b.tree? q w).2
  | .setTree q e => (b.setTree q e w).2
  | .entity guid => (b.entity guid w).2
  | .batch guids => (b.batch guids w).2
  | .stored guids => (b.stored guids w).2
  | .counts => (b.counts w).2
  | .update h edits => (b.save h (w.edit h edits)).2
  | .edit h edits => w.edit h edits
  | .build r => (Act.allocate r w).2
  | .release h => w.release h

def handleAll (b : Backend σ) : List Handling → World σ → World σ
  | [], w => w
  | s :: rest, w => b.handleAll rest (b.handle s w)

/-- The records that steps save, in order. -/
def saves (b : Backend σ) : List Handling → World σ → List Record
  | [], _ => []
  | s :: rest, w => (s.saved? w).toList ++ b.saves rest (b.handle s w)

/-- Asked for `guid`, the store hands out a record of it with the property. -/
def HandsOut (b : Backend σ) (w : World σ) (guid : Guid) (P : Record → Prop) : Prop :=
  ∃ h w' r, b.entity guid w = (.ok h, w') ∧ w'.pool.get? h = some r ∧ r.guid = guid ∧ P r

namespace HandsOut

variable {b : Backend σ} {w : World σ} {guid : Guid} {P Q : Record → Prop}

theorem imp (hPQ : ∀ r, r.guid = guid → P r → Q r) :
    b.HandsOut w guid P → b.HandsOut w guid Q := by
  intro hP
  rcases hP with ⟨h, w', r, hrun, hr, hguid, hPr⟩
  exact ⟨h, w', r, hrun, hr, hguid, hPQ r hguid hPr⟩

/-- There is one record that is handed out. -/
theorem and (hP : b.HandsOut w guid P) (hQ : b.HandsOut w guid Q) :
    b.HandsOut w guid (fun r => P r ∧ Q r) := by
  rcases hP with ⟨h, w', r, hrun, hr, hguid, hPr⟩
  rcases hQ with ⟨h', w'', r', hrun', hr', -, hQr⟩
  simp only [hrun, Prod.mk.injEq, Except.ok.injEq] at hrun'
  rcases hrun' with ⟨rfl, rfl⟩
  simp only [hr, Option.some.injEq] at hr'
  subst hr'
  exact ⟨h, w', r, hrun, hr, hguid, hPr, hQr⟩

end HandsOut

/-- Saving a record succeeds, and what is handed out for `guid` before and after it is related. -/
def AcrossSave (b : Backend σ) (h : Handle) (w : World σ) (guid : Guid)
    (P : Record → Record → Prop) : Prop :=
  (b.save h w).1 = .ok () ∧
    b.HandsOut w guid (fun before => b.HandsOut (b.save h w).2 guid (P before))

theorem AcrossSave.imp {b : Backend σ} {h : Handle} {w : World σ} {guid : Guid}
    {P Q : Record → Record → Prop} (hPQ : ∀ before after, P before after → Q before after) :
    b.AcrossSave h w guid P → b.AcrossSave h w guid Q := by
  intro hP
  refine ⟨hP.1, hP.2.imp fun before _ hbefore => ?_⟩
  exact hbefore.imp fun after _ hafter => hPQ before after hafter

end Backend

/-! ## What a store in a file keeps -/

theorem World.Bounded.edit {w : World FileStore.Connected} (hw : w.Bounded) (h : Handle)
    (edits : List Record.Edit) : (w.edit h edits).Bounded := by
  intro guid i hi
  show i < (w.pool.modify h _).cells.size
  simp only [Pool.size_modify]
  exact hw guid i hi

namespace FileStore

variable {Valid : Record → Prop} {C : List Record → Contents → Prop}
  {L : List Record → Record → Prop} {log : List Record}

/-- Facts about contents of a file and about records of entities, given the records saved so far.
They are true of what is created and stay true as valid records are saved. -/
structure Account (Valid : Record → Prop) (C : List Record → Contents → Prop)
    (L : List Record → Record → Prop) : Prop where
  /-- Cached results do not matter. -/
  aside : ∀ {log t t'}, t'.entities = t.entities → t'.dependents = t.dependents → C log t → C log t'
  made : ∀ {log t} guid, C log t → C log (t.made guid)
  record : ∀ {log t} guid, t.Keyed → C log t → L log (t.record guid)
  saved : ∀ {log t r}, Valid r → C log t → C (log ++ [r]) (t.saved r)
  /-- Records of other entities are not concerned. -/
  other : ∀ {log r s}, s.guid ≠ r.guid → L log s → L (log ++ [r]) s
  own : ∀ {log r} edits, L log r → L (log ++ [r.editAll edits]) (r.editAll edits)

/-- The facts about records hold of changed records as well. -/
def Lenient (L : List Record → Record → Prop) : Prop :=
  ∀ log r edits, L log r → L log (r.editAll edits)

/-- An open store whose contents and whose known records are as the facts say. -/
structure Tracks (C : List Record → Contents → Prop) (L : List Record → Record → Prop)
    (log : List Record) (w : World Connected) (t : Contents) : Prop where
  holds : w.Holds t
  bounded : w.Bounded
  keyed : t.Keyed
  contents : C log t
  known : ∀ {guid h}, Connected.live? w guid = some h →
    ∃ r, w.pool.get? h = some r ∧ r.guid = guid ∧ L log r

/-- If the facts held before, they hold afterwards. -/
def KeepsTrack (C : List Record → Contents → Prop) (L : List Record → Record → Prop)
    (log : List Record) (w w' : World Connected) : Prop :=
  ∀ t, Tracks C L log w t → ∃ t', Tracks C L log w' t'

theorem composes_keepsTrack : Composes (KeepsTrack C L log) where
  refl _ t h := ⟨t, h⟩
  trans := by
    intro w w' w'' h h' t ht
    rcases h t ht with ⟨t', ht'⟩
    exact h' t' ht'

namespace Tracks

open Connected

variable {w w' : World Connected} {t t' : Contents}

/-- A store that was just opened knows no record. -/
theorem of_opened {n : Nat} (hw : w.Holds t) (hopened : w.store.opened = .new n) (ht : t.Keyed)
    (hC : C log t) : Tracks C L log w t := by
  have hlive : ∀ guid, w.store.opened.live.get? guid = none := by
    intro guid
    simp only [hopened]
    rfl
  refine ⟨hw, ?_, ht, hC, ?_⟩
  · intro guid h hget
    simp only [hlive] at hget
    cases hget
  · intro guid h hknown
    simp only [live?_eq_some_iff, hlive] at hknown
    cases hknown.1

/-- Only the pool and what is held may differ, and nothing else becomes known. -/
theorem holding_on (h : Tracks C L log w t) (hstore : w'.store = w.store) (hbounded : w'.Bounded)
    (hlive : ∀ {guid i}, Connected.live? w' guid = some i → Connected.live? w guid = some i)
    (hpool : ∀ {i r}, w.pool.get? i = some r → L log r →
      ∃ r', w'.pool.get? i = some r' ∧ r'.guid = r.guid ∧ L log r') :
    Tracks C L log w' t := by
  refine ⟨?_, hbounded, h.keyed, h.contents, ?_⟩
  · simp only [World.Holds, hstore]
    exact h.holds
  · intro guid i hknown
    rcases h.known (hlive hknown) with ⟨r, hr, hguid, hL⟩
    rcases hpool hr hL with ⟨r', hr', hsame, hL'⟩
    exact ⟨r', hr', hsame.trans hguid, hL'⟩

/-- Cached results may change. -/
theorem withContents (h : Tracks C L log w t) (A : Account Valid C L)
    (hentities : t'.entities = t.entities) (hdependents : t'.dependents = t.dependents) :
    Tracks C L log (w.withContents t') t' where
  holds := h.holds.withContents t'
  bounded := h.bounded
  keyed := by
    intro guid blob s hrow
    simp only [hentities] at hrow
    exact h.keyed guid blob s hrow
  contents := A.aside hentities hdependents h.contents
  known hknown := h.known hknown

/-- One more record is known. -/
theorem loaded (h : Tracks C L log w t) {guid : Guid} {i : Handle} {r : Record}
    (hw' : w'.Holds t') (ht' : t'.Keyed) (hC : C log t') (hloads : w.Loads w')
    (hlearns : Learns w w' guid i) (hr : w'.pool.get? i = some r) (hguid : r.guid = guid)
    (hL : L log r) : Tracks C L log w' t' := by
  refine ⟨hw', hloads.bounded h.bounded, ht', hC, ?_⟩
  intro guid' j hknown
  rcases hlearns guid' j hknown with ⟨rfl, rfl⟩ | hold
  · exact ⟨r, hr, hguid, hL⟩
  · rcases h.known hold with ⟨s, hs, hrest⟩
    exact ⟨s, hloads.pool hs, hrest⟩

/-- Every entity has a record, and the facts hold of it. -/
theorem entity (h : Tracks C L log w t) (A : Account Valid C L) (guid : Guid) : ∃ i w' t' r,
    Connected.entity guid w = (.ok i, w') ∧ Tracks C L log w' t' ∧ w'.pool.get? i = some r ∧
      r.guid = guid ∧ L log r := by
  cases hlive : Connected.live? w guid with
  | some i =>
      rcases h.known hlive with ⟨r, hr, hguid, hL⟩
      exact ⟨i, w, t, r, entity_known hlive, h, hr, hguid, hL⟩
  | none =>
      rcases entity_apply h.holds h.keyed h.bounded hlive with ⟨w', hrun, hw', hloads, hr, hlearns⟩
      have hguid := Contents.guid_record h.keyed guid
      have hL := A.record guid h.keyed h.contents
      refine ⟨_, w', t.made guid, t.record guid, hrun, ?_, hr, hguid, hL⟩
      exact h.loaded hw' (h.keyed.made guid) (A.made guid h.contents) hloads hlearns hr hguid hL

theorem handsOut (h : Tracks C L log w t) (A : Account Valid C L) (guid : Guid) :
    backend.HandsOut w guid (L log) := by
  rcases h.entity A guid with ⟨i, w', -, r, hrun, -, hr, hguid, hL⟩
  exact ⟨i, w', r, hrun, hr, hguid, hL⟩

end Tracks

/-! ### Calls -/

namespace Account

open Connected

theorem tree? (A : Account Valid C L) (q : QueryKey) :
    Within (KeepsTrack C L log) (Connected.tree? q) := by
  intro w t h
  rcases tree?_cases h.holds q with ⟨-, hrun | ⟨e, hrun⟩⟩ | ⟨e, -, hrun⟩
  · simp only [hrun]
    exact ⟨t, h⟩
  · simp only [hrun]
    exact ⟨t, h⟩
  · simp only [hrun]
    exact ⟨_, h.withContents A (t.entities_accessed w.now q) (t.dependents_accessed w.now q)⟩

theorem setTree (A : Account Valid C L) (q : QueryKey) (e : Entry) :
    Within (KeepsTrack C L log) (Connected.setTree q e) := by
  intro w t h
  simp only [setTree_apply h.holds]
  exact ⟨_, h.withContents A rfl rfl⟩

theorem entity (A : Account Valid C L) (guid : Guid) :
    Within (KeepsTrack C L log) (Connected.entity guid) := by
  intro w t h
  rcases h.entity A guid with ⟨i, w', t', r, hrun, h', -⟩
  simp only [hrun]
  exact ⟨t', h'⟩

theorem find? (A : Account Valid C L) (guid : Guid) :
    Within (KeepsTrack C L log) (Connected.find? guid) := by
  intro w t h
  cases hlive : Connected.live? w guid with
  | some i =>
      simp only [Connected.find?, Act.bind_ok (a := Act.world) rfl, hlive]
      exact ⟨t, h⟩
  | none =>
      rcases find?_cases h.holds h.keyed h.bounded hlive with
        ⟨e, -, hrun⟩ | ⟨-, hrun⟩ | ⟨r, i, w', hfind, hrun, hw', hloads, hr, hlearns⟩
      · simp only [hrun]
        exact ⟨t, h⟩
      · simp only [hrun]
        exact ⟨t, h⟩
      -- What is found is what would be handed out.
      · have hrecord : t.record guid = r := by
          simp only [Contents.record, hfind]
        have hguid := Contents.guid_record h.keyed guid
        have hL := A.record guid h.keyed h.contents
        simp only [hrecord] at hguid hL
        simp only [hrun]
        exact ⟨t, h.loaded hw' h.keyed h.contents hloads hlearns hr hguid hL⟩

/-- A saved record takes the place of what was known of its entity. -/
theorem update (A : Account Valid C L) {w : World Connected} {t : Contents} {h : Handle}
    {r : Record} (htracks : Tracks C L log w t) (hr : w.pool.get? h = some r)
    (edits : List Record.Edit) (hvalid : Valid (r.editAll edits)) : ∃ t',
      Tracks C L (log ++ [r.editAll edits]) (Connected.save h (w.edit h edits)).2 t' := by
  have hedited := World.get?_edit_self edits hr
  have hbounded := htracks.bounded.edit h edits
  rcases save_apply (w := w.edit h edits) htracks.holds hbounded hedited with
    ⟨w', hrun, hw', hbounded', hpool, -, hlive⟩
  simp only [hrun]
  refine ⟨_, hw', hbounded', htracks.keyed.saved _, A.saved hvalid htracks.contents, ?_⟩
  intro guid i hknown
  rcases hlive guid i hknown with ⟨hold, hsame⟩
  rcases htracks.known hold with ⟨s, hs, hguid, hL⟩
  simp only [hpool]
  by_cases hguids : guid = (r.editAll edits).guid
  -- Of the saved entity, only the saved record itself is still known.
  · cases hsame hguids
    simp only [hr, Option.some.injEq] at hs
    subst hs
    exact ⟨r.editAll edits, hedited, hguids.symm, A.own edits hL⟩
  -- A record of another entity is not the saved one, so it was not changed either.
  · have hother : h ≠ i := by
      rintro rfl
      simp only [hr, Option.some.injEq] at hs
      subst hs
      exact hguids (hguid.symm.trans (Record.guid_editAll r edits).symm)
    refine ⟨s, (World.get?_edit_of_ne w edits hother).trans hs, hguid, A.other ?_ hL⟩
    simp only [hguid]
    exact hguids

end Account

/-! ### Steps -/

namespace Tracks

open Connected

variable {w : World Connected} {t : Contents}

theorem build (h : Tracks C L log w t) (r : Record) :
    Tracks C L log (Act.allocate r w).2 t := by
  refine h.holding_on rfl ?_ ?_ ?_
  · intro guid i hi
    have hlt : i < w.pool.cells.size := h.bounded guid i hi
    show i < (w.pool.cells.push r).size
    simp only [Array.size_push]
    exact Nat.lt_succ_of_lt hlt
  -- The new record is held, but the store does not know it.
  · intro guid i hknown
    simp only [live?_eq_some_iff] at hknown ⊢
    refine ⟨hknown.1, ?_⟩
    have hlt : i < w.pool.cells.size := h.bounded guid i hknown.1
    have hheld : i ∈ w.pool.cells.size :: w.held := List.contains_iff_mem.mp hknown.2
    exact List.contains_iff_mem.mpr ((List.mem_cons.mp hheld).resolve_left (Nat.ne_of_lt hlt))
  · intro i s hs hL
    exact ⟨s, (Pool.get?_add_of_lt w.pool r (Pool.get?_lt hs)).trans hs, rfl, hL⟩

theorem release (h : Tracks C L log w t) (i : Handle) : Tracks C L log (w.release i) t := by
  refine h.holding_on rfl h.bounded ?_ ?_
  · intro guid j hknown
    simp only [live?_eq_some_iff] at hknown ⊢
    have hheld : j ∈ w.held.filter (fun k => k != i) := List.contains_iff_mem.mp hknown.2
    exact ⟨hknown.1, List.contains_iff_mem.mpr (List.mem_filter.mp hheld).1⟩
  · intro j r hr hL
    exact ⟨r, hr, rfl, hL⟩

theorem edit (h : Tracks C L log w t) (i : Handle) (edits : List Record.Edit)
    (hL : ∀ {r}, w.pool.get? i = some r → L log r → L log (r.editAll edits)) :
    Tracks C L log (w.edit i edits) t := by
  refine h.holding_on rfl (h.bounded.edit i edits) (fun hknown => hknown) ?_
  intro j r hr hr'
  by_cases hsame : i = j
  · subst hsame
    exact ⟨_, World.get?_edit_self edits hr, Record.guid_editAll r edits, hL hr hr'⟩
  · exact ⟨r, (World.get?_edit_of_ne w edits hsame).trans hr, rfl, hr'⟩

theorem update (h : Tracks C L log w t) (A : Account Valid C L) (i : Handle)
    (edits : List Record.Edit)
    (hvalid : ∀ r, (Handling.update i edits).saved? w = some r → Valid r) : ∃ t',
      Tracks C L (log ++ ((Handling.update i edits).saved? w).toList)
        (backend.handle (.update i edits) w) t' := by
  cases hr : w.pool.get? i with
  | none =>
      -- Where there is no record, nothing is saved.
      have hnone : (w.edit i edits).pool.get? i = none := by
        simp only [World.edit, Pool.get?_modify, hr, if_true, Option.map_none]
      have hsame : backend.handle (.update i edits) w = w.edit i edits := by
        show (Connected.save i (w.edit i edits)).2 = _
        simp only [Connected.save, Act.bind_ok (a := Act.world) rfl, hnone]
        rfl
      have hsaved : (Handling.update i edits).saved? w = none := by
        simp only [Handling.saved?, hr, Option.map_none]
      simp only [hsame, hsaved, Option.toList_none, List.append_nil]
      refine ⟨t, h.edit i edits fun hr' => ?_⟩
      simp only [hr] at hr'
      cases hr'
  | some r =>
      have hsaved : (Handling.update i edits).saved? w = some (r.editAll edits) := by
        simp only [Handling.saved?, hr, Option.map_some]
      simp only [hsaved]
      exact A.update h hr edits (hvalid _ hsaved)

/-- A step keeps track, and so does the log of what is saved. -/
theorem handle (h : Tracks C L log w t) (A : Account Valid C L) (s : Handling)
    (hvalid : ∀ r, s.saved? w = some r → Valid r) (hedit : s.isClean = true ∨ Lenient L) :
    ∃ t', Tracks C L (log ++ (s.saved? w).toList) (backend.handle s w) t' := by
  have hkeep : ∀ {α : Type} {m : Act Connected α}, Within (KeepsTrack C L log) m →
      ∃ t', Tracks C L (log ++ []) (m w).2 t' := by
    intro α m hm
    simp only [List.append_nil]
    exact hm w t h
  have hstay : ∀ {w' : World Connected}, Tracks C L log w' t →
      ∃ t', Tracks C L (log ++ []) w' t' := by
    intro w' h'
    simp only [List.append_nil]
    exact ⟨t, h'⟩
  have hcomposes : Composes (KeepsTrack C L log) := composes_keepsTrack
  have hT := Act.closed_within hcomposes
  -- Calls that save nothing keep the log; only a saved record or an edit adds to it.
  cases s with
  | tree q =>
      exact hkeep (A.tree? q)
  | setTree q e =>
      exact hkeep (A.setTree q e)
  | entity guid =>
      exact hkeep (A.entity guid)
  | batch guids =>
      exact hkeep (closed_batch hT A.entity guids)
  | stored guids =>
      exact hkeep (closed_findAll hT A.find? guids.toList .empty)
  | counts =>
      rcases Connected.counts_apply w with ⟨r, hrun⟩
      have hsame : backend.handle .counts w = w := congrArg Prod.snd hrun
      simp only [hsame]
      exact hstay h
  | update i edits =>
      exact h.update A i edits hvalid
  | edit i edits =>
      exact hstay (h.edit i edits fun _ => hedit.resolve_left Bool.false_ne_true log _ edits)
  | build r =>
      exact hstay (h.build r)
  | release i =>
      exact hstay (h.release i)

/-- So do all steps. -/
theorem handleAll (A : Account Valid C L) (steps : List Handling) :
    ∀ {log : List Record} {w : World Connected} {t : Contents}, Tracks C L log w t →
      (∀ r ∈ backend.saves steps w, Valid r) →
      ((∀ s ∈ steps, s.isClean = true) ∨ Lenient L) →
      ∃ t', Tracks C L (log ++ backend.saves steps w) (backend.handleAll steps w) t' := by
  induction steps with
  | nil =>
      intro log w t h _ _
      simp only [Backend.saves, List.append_nil]
      exact ⟨t, h⟩
  | cons s rest ih =>
      intro log w t h hvalid hedit
      simp only [Backend.saves, List.mem_append, Option.mem_toList] at hvalid
      rcases h.handle A s (fun r hr => hvalid r (Or.inl hr))
        (hedit.imp_left fun hs => hs s List.mem_cons_self) with ⟨t₁, h₁⟩
      simp only [Backend.saves, ← List.append_assoc]
      exact ih h₁ (fun r hr => hvalid r (Or.inr hr))
        (hedit.imp_left fun hs s' hs' => hs s' (List.mem_cons_of_mem _ hs'))

end Tracks
end FileStore
end EntityCache
