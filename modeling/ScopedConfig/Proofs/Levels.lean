import ScopedConfig.Proofs.Ancestry
import ScopedConfig.Proofs.Change
import ScopedConfig.Proofs.Merge

/-!
# Levels

The snapshots of a path and of the paths above it, and what they merge to.
-/

namespace ScopedConfig

open Scope (Path)
open Merge (Totals)
open ScopedConfig.Except

/-! ## Reading levels -/

namespace Store

variable {rules : Rules} {st st' : Store}

theorem mapM_load_congr {paths : List Path} (h : ∀ q ∈ paths, st'.load q = st.load q) :
    paths.mapM st'.load = paths.mapM st.load := by
  induction paths with
  | nil => rfl
  | cons path rest ih =>
    rw [List.mapM_cons, List.mapM_cons, h path List.mem_cons_self,
      ih fun q hq => h q (List.mem_cons_of_mem _ hq)]

theorem resolve_ok {path : Path} {typeName : String} {resolved : Option Resolved} {stale : Totals} :
    st.resolve rules path typeName = .ok (resolved, stale) ↔
      ∃ type levels merged, rules.rootType path typeName = .ok type ∧
        path.ancestry.mapM st.load = .ok levels ∧
        Merge.levels rules.toRules type levels = .ok (merged, stale) ∧
        resolved = merged.map fun node =>
          ⟨node, node.definedAt != path, ((levels.getLast?.bind id).map Node.version).getD 0⟩ := by
  constructor
  · intro h
    obtain ⟨type, htype, h⟩ := bind_eq_ok.1 h
    obtain ⟨levels, hlevels, h⟩ := bind_eq_ok.1 h
    obtain ⟨⟨merged, total⟩, hmerged, h⟩ := bind_eq_ok.1 h
    obtain ⟨rfl, rfl⟩ := pure_pair_eq_ok.1 h
    exact ⟨type, levels, merged, htype, hlevels, hmerged, rfl⟩
  · rintro ⟨type, levels, merged, htype, hlevels, hmerged, rfl⟩
    refine bind_eq_ok.2 ⟨type, htype, bind_eq_ok.2 ⟨levels, hlevels, ?_⟩⟩
    exact bind_eq_ok.2 ⟨(merged, stale), hmerged, rfl⟩

theorem mapM_ancestry_ok {path parent : Path} (hparent : path.parent? = some parent)
    {levels : List (Option Node)} (h : path.ancestry.mapM st.load = .ok levels) :
    ∃ above held, parent.ancestry.mapM st.load = .ok above ∧ st.load path = .ok held ∧
      levels = above ++ [held] := by
  rw [Path.ancestry_of_parent hparent, List.mapM_append] at h
  obtain ⟨above, habove, h⟩ := bind_eq_ok.1 h
  obtain ⟨last, hlast, h⟩ := bind_eq_ok.1 h
  rw [List.mapM_cons] at hlast
  obtain ⟨held, hheld, hlast⟩ := bind_eq_ok.1 hlast
  cases hlast
  exact ⟨above, held, habove, hheld, (pure_eq_ok.1 h).symm⟩

theorem mapM_ancestry_last {path : Path} {levels : List (Option Node)}
    (h : path.ancestry.mapM st.load = .ok levels) :
    ∃ held, st.load path = .ok held ∧ levels.getLast? = some held := by
  cases hparent : path.parent? with
  | none =>
    rw [Path.ancestry_of_root hparent, List.mapM_cons] at h
    obtain ⟨held, hheld, h⟩ := bind_eq_ok.1 h
    cases h
    exact ⟨held, hheld, rfl⟩
  | some parent =>
    obtain ⟨above, held, -, hheld, rfl⟩ := mapM_ancestry_ok hparent h
    exact ⟨held, hheld, by simp⟩

end Store

/-! ## Merging levels -/

namespace Merge

theorem levels_snoc_ok {rules : Rules} {type : Schema.Record} {above : List (Option Node)}
    {held merged : Option Node} {stale : Totals}
    (h : levels rules type (above ++ [held]) = .ok (merged, stale)) :
    ∃ upper first last, levels rules type above = .ok (upper, first) ∧
      levelsFrom rules type upper [held] = .ok (merged, last) ∧ stale = first + last := by
  rw [levels, levelsFrom_append] at h
  obtain ⟨⟨upper, first⟩, hupper, h⟩ := bind_eq_ok.1 h
  obtain ⟨⟨node, last⟩, hlast, h⟩ := bind_eq_ok.1 h
  obtain ⟨rfl, rfl⟩ := pure_pair_eq_ok.1 h
  exact ⟨upper, first, last, hupper, hlast, rfl⟩

theorem levelsFrom_none {rules : Rules} {type : Schema.Record} {above : Option Node}
    {levels : List (Option Node)} {stale : Totals}
    (h : levelsFrom rules type above levels = .ok (none, stale)) :
    above = none ∧ ∀ level ∈ levels, level = none := by
  induction levels generalizing above stale with
  | nil =>
    cases h
    simp
  | cons level rest ih =>
    match above, level with
    | above, none =>
      rw [levelsFrom] at h
      obtain ⟨habove, hrest⟩ := ih h
      exact ⟨habove, by simpa using hrest⟩
    | none, some level =>
      rw [levelsFrom] at h
      obtain ⟨hlevel, -⟩ := ih h
      cases hlevel
    | some parent, some level =>
      rw [levelsFrom] at h
      obtain ⟨⟨node, first⟩, -, h⟩ := bind_eq_ok.1 h
      obtain ⟨⟨result, others⟩, hrest, h⟩ := bind_eq_ok.1 h
      cases h
      obtain ⟨hnode, -⟩ := ih hrest
      cases hnode

end Merge

/-! ## The merge above a path -/

namespace Store

variable {rules : Rules} {st st' : Store} {path parent : Path} {type : Schema.Record}

theorem ancestor_congr (hparent : path.parent? = some parent)
    (h : ∀ q ∈ parent.ancestry, st'.load q = st.load q) :
    st'.ancestor rules type path = st.ancestor rules type path := by
  simp only [ancestor, hparent, mapM_load_congr h]

theorem ancestor_ok {above : Option Node} (hparent : path.parent? = some parent)
    (h : st.ancestor rules type path = .ok above) :
    ∃ levels total, parent.ancestry.mapM st.load = .ok levels ∧
      Merge.levels rules.toRules type levels = .ok (above, total) := by
  simp only [ancestor, hparent] at h
  obtain ⟨levels, hlevels, h⟩ := bind_eq_ok.1 h
  obtain ⟨⟨merged, total⟩, hmerged, rfl⟩ := map_eq_ok.1 h
  exact ⟨levels, total, hlevels, hmerged⟩

/-- A load merges what the path holds into the merge above it. -/
theorem resolve_above {typeName : String} {above held : Option Node} {resolved : Option Resolved}
    {stale : Totals} (hparent : path.parent? = some parent)
    (htype : rules.rootType path typeName = .ok type)
    (habove : st.ancestor rules type path = .ok above) (hheld : st.load path = .ok held)
    (h : st.resolve rules path typeName = .ok (resolved, stale)) :
    ∃ levels first merged last, parent.ancestry.mapM st.load = .ok levels ∧
      Merge.levels rules.toRules type levels = .ok (above, first) ∧
      Merge.levelsFrom rules.toRules type above [held] = .ok (merged, last) ∧
      stale = first + last := by
  obtain ⟨type', all, merged, htype', hall, hmerged, -⟩ := resolve_ok.1 h
  obtain rfl : type = type' := Except.ok.inj (htype.symm.trans htype')
  obtain ⟨levels, held', hlevels, hheld', rfl⟩ := mapM_ancestry_ok hparent hall
  obtain rfl : held = held' := Except.ok.inj (hheld.symm.trans hheld')
  obtain ⟨upper, first, last, hfirst, hlast, rfl⟩ := Merge.levels_snoc_ok hmerged
  obtain ⟨levels', total, hlevels', hmerged'⟩ := ancestor_ok hparent habove
  obtain rfl : levels = levels' := Except.ok.inj (hlevels.symm.trans hlevels')
  obtain rfl : upper = above := congrArg Prod.fst (Except.ok.inj (hfirst.symm.trans hmerged'))
  exact ⟨levels, first, merged, last, hlevels, hfirst, hlast, rfl⟩

end Store

end ScopedConfig
