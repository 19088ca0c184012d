import ScopedConfig.Proofs.Fresh
import ScopedConfig.Proofs.Levels

/-!
# Saved snapshots are fresh

A snapshot that was saved adds no stale pair to what the levels above it have, for as long as
nothing at its path and above changes.
-/

namespace ScopedConfig

open Scope (Path)
open Merge (Totals)
open ScopedConfig.Except

/-! ## Saving and loading -/

namespace Store

variable {rules : Rules} {st saved later : Store} {path : Path} {typeName : String} {stale : Totals}

/-- Loading what was saved meets the stale pairs of the levels above and no others. -/
theorem resolve_saved {node stamped : Node} {loaded : Option Int} {resolved : Option Resolved}
    (hst : st.Keeps) (hsave : st.saveWith rules path typeName node loaded = .ok (stamped, saved))
    (hlater : ∀ q ∈ path.ancestry, later.load q = saved.load q)
    (h : later.resolve rules path typeName = .ok (resolved, stale)) :
    (path.parent? = none → stale = .zero) ∧
      ∀ parent, path.parent? = some parent →
        ∃ above, later.resolve rules parent typeName = .ok (above, stale) := by
  obtain ⟨hheld, hothers⟩ := load_saved hst hsave
  obtain ⟨type, previous, above, htype, -, habove, rfl, -⟩ := saveWith_ok hsave
  rw [← hlater path path.mem_ancestry_self] at hheld
  constructor
  · intro hroot
    obtain ⟨_, levels, merged, -, hlevels, hmerged, -⟩ := resolve_ok.1 h
    rw [Path.ancestry_of_root hroot, List.mapM_cons, hheld] at hlevels
    cases hlevels
    cases hmerged
    rfl
  · intro parent hparent
    -- The save read the same levels above as the load does.
    have hsame : ∀ q ∈ parent.ancestry, later.load q = st.load q := by
      intro q hq
      rw [hlater q (by rw [Path.ancestry_of_parent hparent]; exact List.mem_append_left _ hq)]
      exact hothers q (Path.ne_of_mem_parent hparent hq)
    rw [← ancestor_congr hparent hsame] at habove
    obtain ⟨levels, first, merged, last, hlevels, hfirst, hlast, rfl⟩ :=
      resolve_above hparent htype habove hheld h
    rw [Merge.levelsFrom_forSave _ _ hlast, Totals.add_zero]
    exact ⟨_, resolve_ok.2 ⟨type, levels, above, Rules.rootType_parent hparent htype, hlevels,
      hfirst, rfl⟩⟩

end Store

namespace Service

variable {rules : Rules} {s : Service} {st : Store} {path : Path} {typeName : String}

theorem load_after_save {node stamped : Node} {loaded : Option Int} {saved : Answer Node}
    {between : List Call} {later : Service} {resolved : Option Resolved} (hover : s.Over st)
    (hst : st.Keeps) (hsaved : s.saveWith rules path typeName node loaded = saved)
    (hlater : saved.service.after rules between = later) (hsave : saved.result = .ok stamped)
    (hsame : ∀ q ∈ path.ancestry, later.store.load q = saved.service.store.load q)
    (hload : (later.load rules path typeName).result = .ok resolved) :
    (path.parent? = none → (later.load rules path typeName).report = none) ∧
      ∀ parent, path.parent? = some parent →
        (∃ above, (later.load rules parent typeName).result = .ok above) ∧
          (later.load rules path typeName).report.map Merge.Report.totals =
            (later.load rules parent typeName).report.map Merge.Report.totals := by
  subst hsaved hlater
  obtain ⟨st', hsaved, hoverSaved⟩ := saveWith_ok hover hst hsave
  obtain ⟨-, hoverLater⟩ := run_spec rules between hoverSaved (Store.saveWith_keeps hst hsaved)
  rw [hoverLater.store, hoverSaved.store] at hsame
  obtain ⟨stale, hresolve, hreport⟩ := load_ok hoverLater hload
  obtain ⟨hroot, hparent⟩ := Store.resolve_saved hst hsaved hsame hresolve
  rw [hreport]
  constructor
  · intro hnone
    rw [hroot hnone]
    rfl
  · intro parent hp
    obtain ⟨above, habove⟩ := hparent parent hp
    obtain ⟨hresult, habove⟩ := load_of_resolve hoverLater habove
    refine ⟨⟨above, hresult⟩, ?_⟩
    rw [habove]
    unfold Merge.report?
    cases stale.any <;> rfl

end Service

/-- A saved snapshot gives no stale pair when it is merged into the levels that it was stamped
against. So as long as nothing at its path and above changes, loading the path reports what loading
the parent reports. -/
theorem saved_not_stale :
    (∀ (rules : Merge.Rules) (type : Schema.Record) (previous above : Option Node)
        (current : Node) (target : Path) (merged : Option Node) (stale : Totals),
      Merge.levels rules type
        [above, some (Stamp.forSave rules.schema type previous current above target)] =
          .ok (merged, stale) →
        stale = .zero ∧ Merge.report? target stale = none) ∧
      ∀ (rules : Rules) (st : Store) (capacity : Nat) (before between : List Call)
        (path : Path) (typeName : String) (node stamped : Node) (loaded : Option Int)
        (resolved : Option Resolved), st.Keeps →
        let saved :=
          ((Service.start st capacity).after rules before).saveWith rules path typeName node loaded
        let later := saved.service.after rules between
        saved.result = .ok stamped →
        (∀ q ∈ path.ancestry, later.store.load q = saved.service.store.load q) →
        (later.load rules path typeName).result = .ok resolved →
        (path.parent? = none → (later.load rules path typeName).report = none) ∧
          ∀ parent, path.parent? = some parent →
            (∃ above, (later.load rules parent typeName).result = .ok above) ∧
              (later.load rules path typeName).report.map Merge.Report.totals =
                (later.load rules parent typeName).report.map Merge.Report.totals := by
  constructor
  · intro rules type previous above current target merged stale h
    have hfrom : Merge.levelsFrom rules type above
        [some (Stamp.forSave rules.schema type previous current above target)] =
          .ok (merged, stale) := by
      cases above <;> exact h
    obtain rfl := Merge.levelsFrom_forSave rules target hfrom
    exact ⟨rfl, rfl⟩
  · intro rules st capacity before between path typeName node stamped loaded resolved hst saved
      later hsave hsame hload
    obtain ⟨-, hover⟩ := Service.run_spec rules before (Service.start_over st capacity) hst
    have hst' := Store.after_keeps rules before hst
    exact Service.load_after_save hover hst' rfl rfl hsave hsame hload

namespace Sample

def resaved : Answer Node := outdated.saveWith rules alice "App" (app "9090") none

def later : Service := resaved.service.after rules [save bob "7070"]

/-- The outdated snapshot is reported, and no longer after it was saved again. -/
theorem resaved_not_stale :
    (outdated.load rules alice "App").report = some ⟨alice, ⟨1, 0⟩⟩ ∧
      (Merge.report? alice ⟨0, 0⟩ = none ∧
        (later.load rules alice "App").report.map Merge.Report.totals =
          (later.load rules global "App").report.map Merge.Report.totals) := by
  have hlevels : Merge.levels rules.toRules record
      [some (app "80"),
        some (Stamp.forSave rules.schema record none (app "8080") (some (app "80")) alice)] =
        .ok (_, ⟨0, 0⟩) := rfl
  have hsave : resaved.result = .ok _ := rfl
  have hsame : ∀ q ∈ alice.ancestry, later.store.load q = resaved.service.store.load q := by
    rw [show alice.ancestry = [alice.upTo 0, alice.upTo 1, global, alice] from rfl]
    simp only [List.forall_mem_cons, List.not_mem_nil, false_implies, implies_true, and_true]
    exact ⟨rfl, rfl, rfl, rfl⟩
  have hload : (later.load rules alice "App").result = .ok _ := rfl
  have hmerge :=
    saved_not_stale.1 rules.toRules record none (some (app "80")) (app "8080") alice _ _ hlevels
  have hrun := saved_not_stale.2 rules (.memory .empty) 2
    [save global "80", save alice "8080", save global "81"] [save bob "7070"] alice "App"
    (app "9090") _ none _ (Store.keeps_memory _) hsave hsame hload
  exact ⟨by decide, hmerge.2, (hrun.2 global rfl).2⟩

end Sample

end ScopedConfig
