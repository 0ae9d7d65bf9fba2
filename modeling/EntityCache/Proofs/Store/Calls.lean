import EntityCache.Cache.Access
import EntityCache.Proofs.Normalize.Passes

/-!
# Reading and writing, call by call

What reading and writing come to, given what each call on the store does:

* `Backend.absorb_of_saved`, `Backend.absorb_of_refused`: absorbing a result.
* `Backend.project_of_records`: assembling a skeleton.
* `Backend.read_of_entry`, `Backend.read_of_none`: reading a query; `Backend.world_read` is the
  world after it in any case.
* `Backend.write_of_stored`, `Backend.write_of_unstored`, `Backend.write_of_failed`: writing one.
-/

namespace EntityCache

open Normalize

variable {σ α β : Type}

/-! ## Calls in sequence -/

namespace Act

theorem holding_apply {a : Act σ α} {w w' : World σ} {r : Except StoreError α} :
    a w = (r, w') → Act.holding a w = (r, { w' with held := w.held }) := by
  intro h
  simp only [holding, h]

theorem each_cons {f : β → Act σ Unit} {b : β} {w w' : World σ} (rest : List β) :
    f b w = (.ok (), w') → Act.each f (b :: rest) w = Act.each f rest w' := by
  intro h
  simp only [each, bind_ok h]

end Act

theorem World.report_report (w : World σ) (first later : Journal) :
    (w.report first).report later = w.report (first ++ later) := by
  simp [World.report]

theorem World.report_nil (w : World σ) : w.report [] = w := by
  simp [World.report]

theorem note_apply (signals : Journal) (w : World σ) :
    note signals w = ((), w.report signals) := rfl

theorem bindM_apply {m : StateM (World σ) α} {f : α → StateM (World σ) β} {w w' : World σ}
    {x : α} : m w = (x, w') → (m >>= f) w = f x w' := by
  intro h
  show f (m w).1 (m w).2 = _
  simp only [h]

namespace Backend

variable {b : Backend σ} {w w₁ w₂ : World σ} {v : Value} {ids : IdIndex}
  {requestor : Option QueryKey} {index : Dict Guid Handle}

/-! ## Absorbing -/

theorem splitOver_of_run {pass : Pass}
    (hrun : Pass.run? v ids ⟨w.pool, index⟩ requestor = some pass) :
    splitOver v ids index requestor w = (.ok pass, { w with pool := pass.records.pool }) := by
  simp only [splitOver, hrun]

/-- What is no object is refused. -/
theorem splitOver_of_other (hv : v.isMap = false) :
    splitOver v ids index requestor w =
      (.error (.codec (requestor.getD anonymous) .rootNotObject),
        w.report [.anomaly .rootNotObject]) := by
  rw [splitOver, Pass.run?_other hv]

theorem absorb_of_saved {w₃ : World σ} {pass : Pass}
    (hbatch : b.batch (idsWithin ids v) w = (.ok index, w₁))
    (hsplit : splitOver v ids index requestor w₁ = (.ok pass, w₂))
    (hsave : Act.each b.save pass.touched.values w₂ = (.ok (), w₃)) :
    b.absorb v ids requestor w =
      (.ok pass, { w₃.report [.touched pass.touched.size] with held := w.held }) := by
  refine Act.holding_apply ?_
  simp only [Act.bind_ok hbatch, Act.bind_ok hsplit, Act.bind_ok hsave]
  rfl

theorem absorb_of_refused {e : StoreError}
    (hbatch : b.batch (idsWithin ids v) w = (.ok index, w₁))
    (hsplit : splitOver v ids index requestor w₁ = (.error e, w₂)) :
    b.absorb v ids requestor w = (.error e, { w₂ with held := w.held }) := by
  refine Act.holding_apply ?_
  simp only [Act.bind_ok hbatch, Act.bind_error hsplit]

/-! ## Assembling -/

theorem project_of_records {root : Skeleton} (hrecords : b.recordsOf root w = (.ok index, w₁)) :
    b.project root w =
      (.ok (assemble (RecordSet.view ⟨w₁.pool, index⟩) root),
        { w₁.report (missingNotices (RecordSet.view ⟨w₁.pool, index⟩) root) with
          held := w.held }) := by
  refine Act.holding_apply ?_
  rw [Act.bind_ok hrecords]
  rfl

theorem project_of_failed {root : Skeleton} {e : StoreError}
    (hrecords : b.recordsOf root w = (.error e, w₁)) :
    b.project root w = (.error e, { w₁ with held := w.held }) := by
  refine Act.holding_apply ?_
  simp only [Act.bind_error hrecords]

/-! ## Reading -/

variable {q : QueryKey}

theorem read_of_none (htree : b.tree? q w = (.ok none, w₁)) :
    b.read q w =
      (none, (w₁.report [.operation b.backing .read .miss]).report [.timed b.backing .read]) := by
  have hentry : readEntry b q w = (none, w₁.report [.operation b.backing .read .miss]) := by
    simp only [readEntry, bindM_apply (m := (b.tree? q).outcome) htree]
    rfl
  simp only [read, bindM_apply hentry]
  rfl

/-- An entry whose skeleton cannot be decoded shows nothing. -/
theorem read_of_undecodable {e : Entry} {f : Json.Fault}
    (htree : b.tree? q w = (.ok (some e), w₁)) (hroot : e.root? = .error f) :
    ∃ signals, b.read q w = (none, w₁.report signals) := by
  refine ⟨[.notice .treeUndecodable, .undecodable b.backing .trees,
    .operation b.backing .read .error] ++ [.timed b.backing .read], ?_⟩
  have hentry : readEntry b q w = (none, w₁.report [.notice .treeUndecodable,
      .undecodable b.backing .trees, .operation b.backing .read .error]) := by
    rw [readEntry, bindM_apply (m := (b.tree? q).outcome) htree]
    simp only
    simp only [present, hroot]
    rfl
  simp only [read, bindM_apply hentry, bindM_apply (note_apply _ _), World.report_report]
  rfl

/-- An entry whose records cannot be read shows nothing. -/
theorem read_of_unprojected {e : Entry} {root : Skeleton} {failed : StoreError}
    (htree : b.tree? q w = (.ok (some e), w₁)) (hroot : e.root? = .ok root)
    (hproject : b.project root w₁ = (.error failed, w₂)) :
    ∃ signals, b.read q w = (none, w₂.report signals) := by
  refine ⟨failureSignals b.backing .entities .read failed ++ [.timed b.backing .read], ?_⟩
  have hpresent : present b q e w₁ =
      (none, w₂.report (failureSignals b.backing .entities .read failed)) := by
    simp only [present, hroot]
    exact (bindM_apply (m := (b.project root).outcome) hproject).trans rfl
  have hentry : readEntry b q w = present b q e w₁ := by
    simp only [readEntry, bindM_apply (m := (b.tree? q).outcome) htree]
  rw [read, bindM_apply (hentry.trans hpresent), bindM_apply (note_apply _ _),
    World.report_report]
  rfl

/-- A store that fails to answer shows nothing. -/
theorem read_of_failed {failed : StoreError} (htree : b.tree? q w = (.error failed, w₁)) :
    ∃ signals, b.read q w = (none, w₁.report signals) := by
  refine ⟨failureSignals b.backing .trees .read failed ++ [.timed b.backing .read], ?_⟩
  have hentry : readEntry b q w =
      (none, w₁.report (failureSignals b.backing .trees .read failed)) := by
    simp only [readEntry, bindM_apply (m := (b.tree? q).outcome) htree]
    rfl
  simp only [read, bindM_apply hentry, bindM_apply (note_apply _ _), World.report_report]
  rfl

/-- A stored skeleton that can be assembled is shown, whatever is reported. -/
theorem read_of_entry {e : Entry} {root : Skeleton} {data : Value}
    (htree : b.tree? q w = (.ok (some e), w₁)) (hroot : e.root? = .ok root)
    (hproject : b.project root w₁ = (.ok data, w₂)) :
    ∃ signals, b.read q w =
      (some ⟨q, data.plain, e.isStaleAt w₂.now, e.ttl, e.cachedAt⟩, w₂.report signals) := by
  refine ⟨[.operation b.backing .read (if e.isStaleAt w₂.now then .stale else .hit)] ++
    [.timed b.backing .read], ?_⟩
  have hpresent : present b q e w₁ =
      (some ⟨q, data.plain, e.isStaleAt w₂.now, e.ttl, e.cachedAt⟩,
        w₂.report [.operation b.backing .read (if e.isStaleAt w₂.now then .stale else .hit)]) := by
    simp only [present, hroot]
    exact (bindM_apply (m := (b.project root).outcome) hproject).trans rfl
  have hentry : readEntry b q w = present b q e w₁ := by
    simp only [readEntry, bindM_apply (m := (b.tree? q).outcome) htree]
  simp only [read, bindM_apply (hentry.trans hpresent), bindM_apply (note_apply _ _),
    World.report_report]
  rfl

/-- Whatever is read, the world has been through the look-up, perhaps through assembling, and some
signals. -/
theorem world_read (b : Backend σ) (q : QueryKey) (w : World σ) :
    ∃ signals, (b.read q w).2 = (b.tree? q w).2.report signals ∨
      ∃ root, (b.read q w).2 = (b.project root (b.tree? q w).2).2.report signals := by
  cases htree : b.tree? q w with
  | mk answer w₁ =>
  cases answer with
  | error failed =>
      rcases read_of_failed htree with ⟨signals, hread⟩
      exact ⟨signals, Or.inl (congrArg Prod.snd hread)⟩
  | ok found =>
  cases found with
  | none =>
      have hread := congrArg Prod.snd (read_of_none htree)
      simp only [World.report_report] at hread
      exact ⟨_, Or.inl hread⟩
  | some e =>
  cases hroot : e.root? with
  | error fault =>
      rcases read_of_undecodable htree hroot with ⟨signals, hread⟩
      exact ⟨signals, Or.inl (congrArg Prod.snd hread)⟩
  | ok root =>
  -- From here on there is a skeleton to assemble.
  cases hproject : b.project root w₁ with
  | mk answer w₂ =>
  have hworld : (b.project root w₁).2 = w₂ := congrArg Prod.snd hproject
  cases answer with
  | error failed =>
      rcases read_of_unprojected htree hroot hproject with ⟨signals, hread⟩
      refine ⟨signals, Or.inr ⟨root, ?_⟩⟩
      simp only [hread, hworld]
  | ok data =>
      rcases read_of_entry htree hroot hproject with ⟨signals, hread⟩
      refine ⟨signals, Or.inr ⟨root, ?_⟩⟩
      simp only [hread, hworld]

/-! ## Writing -/

variable {config : Config} {response : Response} {u : Upkeep}

theorem schedule_apply (u : Upkeep) (queries : KeySet QueryKey) (w : World σ) :
    ∃ u' signals, u.schedule queries w = (u', w.report signals) := by
  simp only [Upkeep.schedule]
  cases u.queue with
  | none =>
      exact ⟨u, [], by simp only [World.report_nil]; rfl⟩
  | some queue =>
      exact ⟨_, (queue.schedule queries).2, rfl⟩

/-- Whatever becomes of the skeleton, the impacted queries are scheduled. -/
theorem complete_apply {pass : Pass} {ttl : Option Span} {stored : Bool} {signals : Journal}
    (hstore : storeTree b q pass.root (ttl.getD config.defaultSpan) w =
      (stored, w₁.report signals)) :
    ∃ u' signals, complete b config q ttl pass u w =
      ((⟨stored, pass.impacted⟩, u'), w₁.report signals) := by
  rcases schedule_apply u pass.impacted
    (w₁.report (signals ++ [.impacted pass.impacted.size])) with ⟨u', later, hschedule⟩
  refine ⟨{ u' with sizing := u'.sizing.count },
    signals ++ [.impacted pass.impacted.size] ++ later, ?_⟩
  simp only [complete, bindM_apply hstore, bindM_apply (note_apply _ _), World.report_report,
    bindM_apply hschedule]
  rfl

theorem write_of_complete {pass : Pass} {stored : Bool} {u' : Upkeep} {signals : Journal}
    (habsorb : b.absorb response.data response.ids requestor w = (.ok pass, w₁))
    (hcomplete : complete b config q response.ttl pass u w₁ =
      ((⟨stored, pass.impacted⟩, u'), w₂.report signals)) :
    ∃ signals, b.write config q response requestor u w =
      ((⟨stored, pass.impacted⟩, u'), w₂.report signals) := by
  refine ⟨signals ++ [.timed b.backing .write], ?_⟩
  simp only [write, ← World.report_report]
  refine (bindM_apply (m := (b.absorb _ _ _).outcome) habsorb).trans ?_
  exact (bindM_apply hcomplete).trans rfl

/-- A write whose skeleton is stored. -/
theorem write_of_stored (config : Config) (q : QueryKey) (u : Upkeep) {pass : Pass}
    (habsorb : b.absorb response.data response.ids requestor w = (.ok pass, w₁))
    (hset : b.setTree q (Entry.new q pass.root.text (response.ttl.getD config.defaultSpan)
      (some pass.root) w₁.now) w₁ = (.ok (), w₂)) :
    ∃ u' signals, b.write config q response requestor u w =
      ((⟨true, pass.impacted⟩, u'), w₂.report signals) := by
  have hstore : storeTree b q pass.root (response.ttl.getD config.defaultSpan) w₁ =
      (true, w₂.report [.operation b.backing .write .success]) := by
    rw [storeTree, bindM_apply (m := get) rfl, bindM_apply (m := (b.setTree _ _).outcome) hset]
    rfl
  rcases complete_apply (u := u) hstore with ⟨u', signals, hcomplete⟩
  rcases write_of_complete habsorb hcomplete with ⟨signals', hwrite⟩
  exact ⟨u', signals', hwrite⟩

/-- A write whose skeleton is not stored; its records are saved all the same. -/
theorem write_of_unstored (config : Config) (q : QueryKey) (u : Upkeep) {pass : Pass}
    {e : StoreError}
    (habsorb : b.absorb response.data response.ids requestor w = (.ok pass, w₁))
    (hset : b.setTree q (Entry.new q pass.root.text (response.ttl.getD config.defaultSpan)
      (some pass.root) w₁.now) w₁ = (.error e, w₂)) :
    ∃ u' signals, b.write config q response requestor u w =
      ((⟨false, pass.impacted⟩, u'), w₂.report signals) := by
  have hstore : storeTree b q pass.root (response.ttl.getD config.defaultSpan) w₁ =
      (false, w₂.report (failureSignals b.backing .trees .write e)) := by
    rw [storeTree, bindM_apply (m := get) rfl, bindM_apply (m := (b.setTree _ _).outcome) hset]
    rfl
  rcases complete_apply (u := u) hstore with ⟨u', signals, hcomplete⟩
  rcases write_of_complete habsorb hcomplete with ⟨signals', hwrite⟩
  exact ⟨u', signals', hwrite⟩

/-- A write that is dropped before its skeleton. -/
theorem write_of_failed (config : Config) (q : QueryKey) (u : Upkeep) {e : StoreError}
    (habsorb : b.absorb response.data response.ids requestor w = (.error e, w₁)) :
    ∃ signals, b.write config q response requestor u w =
      ((.dropped, u), w₁.report signals) := by
  refine ⟨failureSignals b.backing .entities .write e ++ [.timed b.backing .write], ?_⟩
  simp only [write, bindM_apply (m := (b.absorb _ _ _).outcome) habsorb, ← World.report_report]
  rfl

/-! ## Looking at the size -/

theorem levels_apply {r : Except StoreError Counts} (hcounts : b.counts w = (r, w)) :
    ∃ signals, b.levels w = (r, w.report signals) := by
  simp only [levels, bindM_apply (m := b.counts.outcome) hcounts]
  cases r with
  | ok n =>
      exact ⟨_, rfl⟩
  | error e =>
      exact ⟨[], by simp only [World.report_nil]; rfl⟩

/-- A look at the size changes nothing but what is kept up. -/
theorem review_apply {r : Except StoreError Counts} (hcounts : b.counts w = (r, w)) (u : Upkeep)
    (limit : Nat) :
    ∃ u' signals, u.review b limit w = (u', w.report signals) := by
  have hsizing : ∃ sizing signals, u.sizing.review b limit w = (sizing, w.report signals) := by
    simp only [Sizing.review]
    split
    · rcases levels_apply hcounts with ⟨signals, hlevels⟩
      simp only [bindM_apply hlevels]
      cases r with
      | error e =>
          exact ⟨_, _, rfl⟩
      | ok n =>
          -- A warning is one more signal.
          by_cases hlimit : (decide (limit < n.trees + n.entities) && !u.sizing.warned) = true
          · simp only [if_pos hlimit]
            simp only [bindM_apply (note_apply _ _), World.report_report]
            exact ⟨_, _, rfl⟩
          · simp only [if_neg hlimit]
            exact ⟨_, _, rfl⟩
    · exact ⟨_, [], by simp only [World.report_nil]; rfl⟩
  rcases hsizing with ⟨sizing, signals, hsizing⟩
  refine ⟨{ u with sizing := sizing }, signals, ?_⟩
  simp only [Upkeep.review, bindM_apply hsizing]
  rfl

end Backend
end EntityCache
