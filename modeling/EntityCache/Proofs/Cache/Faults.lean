import EntityCache.Proofs.Cache.Postings
import EntityCache.Proofs.Store.Guarded

/-!
# Writes and reads behind schedules of failures

* `Backend.Posted`: what may become of a write through a store behind schedules, one case for each
  point at which it can be stopped.
* `Backend.Follows.posted`: nothing else becomes of it.
* `Backend.Follows.keeps_read`: what reading keeps without schedules, it keeps behind them.
-/

namespace EntityCache

open Normalize

variable {σ τ : Type} {view : τ → σ}

/-! ## Writes -/

/-- A write, begun in the world `w`, has led to an outcome and another world. -/
inductive Backend.Posted (b : Backend σ) (config : Config) (e : Posting) (w : World σ) :
    WriteOutcome → World σ → Prop
  /-- The records were refused. -/
  | refused (signals : Journal) : Posted b config e w .dropped (w.report signals)
  /-- Only some of the touched records were saved. -/
  | stopped {index : Dict Guid Handle} {pass : Pass} {k : Nat} {w₁ w₂ w₃ : World σ}
      (hbatch : b.batch (idsWithin e.response.ids e.response.data) w = (.ok index, w₁))
      (hsplit : splitOver e.response.data e.response.ids index e.requestor w₁ = (.ok pass, w₂))
      (hsaves : Act.each b.save (pass.touched.values.take k) w₂ = (.ok (), w₃))
      (signals : Journal) :
      Posted b config e w .dropped ({ w₃ with held := w.held }.report signals)
  /-- The result could not be absorbed even without schedules. -/
  | failed {failure : StoreError} {w₁ : World σ}
      (habsorb : b.absorb e.response.data e.response.ids e.requestor w = (.error failure, w₁))
      (signals : Journal) : Posted b config e w .dropped (w₁.report signals)
  /-- The result was absorbed, but its skeleton was refused. -/
  | unstored {pass : Pass} {w₁ : World σ}
      (habsorb : b.absorb e.response.data e.response.ids e.requestor w = (.ok pass, w₁))
      (signals : Journal) : Posted b config e w ⟨false, pass.impacted⟩ (w₁.report signals)
  /-- The skeleton could not be stored even without schedules. -/
  | unkept {pass : Pass} {failure : StoreError} {w₁ w₂ : World σ}
      (habsorb : b.absorb e.response.data e.response.ids e.requestor w = (.ok pass, w₁))
      (hset : b.setTree e.query (Entry.new e.query pass.root.text (e.span config)
        (some pass.root) w₁.now) w₁ = (.error failure, w₂))
      (signals : Journal) : Posted b config e w ⟨false, pass.impacted⟩ (w₂.report signals)
  | stored {pass : Pass} {w₁ w₂ : World σ}
      (habsorb : b.absorb e.response.data e.response.ids e.requestor w = (.ok pass, w₁))
      (hset : b.setTree e.query (Entry.new e.query pass.root.text (e.span config)
        (some pass.root) w₁.now) w₁ = (.ok (), w₂))
      (signals : Journal) : Posted b config e w ⟨true, pass.impacted⟩ (w₂.report signals)

namespace Backend

variable {b' : Backend τ} {b : Backend σ}

/-- What is reported later makes no difference. -/
theorem Posted.report {config : Config} {e : Posting} {w w' : World σ} {outcome : WriteOutcome}
    (h : b.Posted config e w outcome w') (later : Journal) :
    b.Posted config e w outcome (w'.report later) := by
  -- However the write ended, its own signals take up the later ones.
  cases h with
  | refused signals =>
      simp only [World.report_report]
      exact .refused _
  | stopped hbatch hsplit hsaves signals =>
      simp only [World.report_report]
      exact .stopped hbatch hsplit hsaves _
  | failed habsorb signals =>
      simp only [World.report_report]
      exact .failed habsorb _
  | unstored habsorb signals =>
      simp only [World.report_report]
      exact .unstored habsorb _
  | unkept habsorb hset signals =>
      simp only [World.report_report]
      exact .unkept habsorb hset _
  | stored habsorb hset signals =>
      simp only [World.report_report]
      exact .stored habsorb hset _

theorem focus_report (w : World τ) (signals : Journal) :
    (w.report signals).focus view = (w.focus view).report signals := rfl

/-- The rest of a write whose result was absorbed: its skeleton is stored, or that fails. -/
theorem Follows.kept (h : b'.Follows view b) (config : Config) (u : Upkeep) (e : Posting)
    {w w₁ : World τ} {pass : Pass}
    (habsorb' : b'.absorb e.response.data e.response.ids e.requestor w = (.ok pass, w₁))
    (habsorb : b.absorb e.response.data e.response.ids e.requestor (w.focus view) =
      (.ok pass, w₁.focus view)) : ∃ outcome u' w',
      b'.write config e.query e.response e.requestor u w = ((outcome, u'), w') ∧
      b.Posted config e (w.focus view) outcome (w'.focus view) := by
  rcases h.setTree e.query (Entry.new e.query pass.root.text (e.span config)
      (some pass.root) w₁.now) w₁ with
    ⟨failure, w₂, hset', hfocus⟩ | ⟨w₂, hset', hfocus⟩
  · rcases write_of_unstored config e.query u habsorb' hset' with ⟨u', signals, hwrite⟩
    refine ⟨_, _, _, hwrite, ?_⟩
    simp only [focus_report, hfocus]
    exact .unstored habsorb signals
  -- The store was asked, and its answer is that of the store without schedules.
  · cases hset : b.setTree e.query (Entry.new e.query pass.root.text (e.span config)
        (some pass.root) w₁.now) (w₁.focus view) with
    | mk answer v₂ =>
        simp only [hset] at hset' hfocus
        cases answer with
        | error failure =>
            rcases write_of_unstored config e.query u habsorb' hset' with ⟨u', signals, hwrite⟩
            refine ⟨_, _, _, hwrite, ?_⟩
            simp only [focus_report, hfocus]
            exact .unkept habsorb hset signals
        | ok _ =>
            rcases write_of_stored config e.query u habsorb' hset' with ⟨u', signals, hwrite⟩
            refine ⟨_, _, _, hwrite, ?_⟩
            simp only [focus_report, hfocus]
            exact .stored habsorb hset signals

/-- The part of a write before the look at the size. -/
theorem Follows.written (h : b'.Follows view b) (config : Config) (u : Upkeep) (e : Posting)
    (w : World τ) : ∃ outcome u' w',
      b'.write config e.query e.response e.requestor u w = ((outcome, u'), w') ∧
      b.Posted config e (w.focus view) outcome (w'.focus view) := by
  rcases h.absorb e.response.data e.response.ids e.requestor w with
    ⟨failure, w₁, habsorb', hfocus⟩ | ⟨w₁, habsorb', hfocus⟩ |
    ⟨failure, w₁, index, v₁, pass, v₂, k, v₃, habsorb', hbatch, hsplit, hsaves, hfocus⟩
  · rcases write_of_failed config e.query u habsorb' with ⟨signals, hwrite⟩
    refine ⟨_, _, _, hwrite, ?_⟩
    simp only [focus_report, hfocus]
    exact .refused signals
  -- Absorbing went as without schedules; it may have failed all the same.
  · cases habsorb : b.absorb e.response.data e.response.ids e.requestor (w.focus view) with
    | mk answer v₁ =>
        simp only [habsorb] at habsorb' hfocus
        cases answer with
        | error failure =>
            rcases write_of_failed config e.query u habsorb' with ⟨signals, hwrite⟩
            refine ⟨_, _, _, hwrite, ?_⟩
            simp only [focus_report, hfocus]
            exact .failed habsorb signals
        | ok pass =>
            obtain rfl : w₁.focus view = v₁ := hfocus
            exact h.kept config u e habsorb' habsorb
  -- The first calls were made, and one of those that save a record was refused.
  · rcases write_of_failed config e.query u habsorb' with ⟨signals, hwrite⟩
    refine ⟨_, _, _, hwrite, ?_⟩
    simp only [focus_report, hfocus]
    exact .stopped hbatch hsplit hsaves signals

/-- A look at the size is never refused. -/
theorem Follows.reviewed (h : b'.Follows view b) (hcounts : ∀ w, ∃ r, b.counts w = (r, w))
    (u : Upkeep) (limit : Nat) (w : World τ) : ∃ u' w' signals,
      u.review b' limit w = (u', w') ∧ w'.focus view = (w.focus view).report signals := by
  rcases hcounts (w.focus view) with ⟨r, hr⟩
  rcases review_apply hr u limit with ⟨u', signals, hreview⟩
  rcases (review_mirrors h.backing h.counts u limit).eq hreview with ⟨w', hreview', hfocus⟩
  exact ⟨u', w', signals, hreview', hfocus⟩

/-- Whatever becomes of a write through a store behind schedules is one of the listed cases. -/
theorem Follows.posted (h : b'.Follows view b) (hcounts : ∀ w, ∃ r, b.counts w = (r, w))
    (config : Config) (u : Upkeep) (e : Posting) (w : World τ) : ∃ outcome u' w',
      b'.post config u e w = ((outcome, u'), w') ∧
      b.Posted config e ((w.focus view).setTime e.time) outcome (w'.focus view) := by
  rcases h.written config u e (w.setTime e.time) with ⟨outcome, u₁, w₁, hwrite, hposted⟩
  rcases h.reviewed hcounts u₁ config.maxEntries w₁ with ⟨u₂, w₂, signals, hreview, hfocus⟩
  refine ⟨outcome, u₂, w₂, post_eq hwrite hreview, ?_⟩
  simp only [hfocus]
  exact hposted.report signals

/-! ## Reads -/

/-- What reading keeps without schedules, it keeps behind them. -/
theorem Follows.keeps_read (h : b'.Follows view b) (Inv : World σ → Prop)
    (hreport : ∀ w signals, Inv w → Inv (w.report signals))
    (htree : ∀ q w, Inv w → Inv (b.tree? q w).2)
    (hproject : ∀ root w, Inv w → Inv (b.project root w).2) (q : QueryKey) (w : World τ) :
    Inv (w.focus view) → Inv ((b'.read q w).2.focus view) := by
  intro hw
  -- A refused call leaves the part in view as it was.
  have hkeeps : ∀ {α : Type} {m' : Act τ α} {m : Act σ α} {w : World τ},
      EntityCache.Follows view m' m → Inv (w.focus view) → Inv (m (w.focus view)).2 →
        Inv ((m' w).2.focus view) := by
    intro α m' m w hfollows hw hbare
    rcases hfollows w with ⟨e, w', hrun, hfocus⟩ | ⟨w', hrun, hfocus⟩
    · simp only [hrun, hfocus]
      exact hw
    · simp only [hrun, hfocus]
      exact hbare
  have htree' := hkeeps (h.tree? q) hw (htree q _ hw)
  rcases world_read b' q w with ⟨signals, hread | ⟨root, hread⟩⟩
  · simp only [hread, focus_report]
    exact hreport _ _ htree'
  · simp only [hread, focus_report]
    exact hreport _ _ (hkeeps (h.project root) htree' (hproject root _ htree'))

end Backend
end EntityCache
