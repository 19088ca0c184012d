import ScopedConfig.Proofs.Isolation
import ScopedConfig.Proofs.Provenance
import Mathlib.Data.List.ReduceOption

/-!
# What a load reports

Absent levels do not count in a merge. What is merged carries the metadata of the last level that is
there and the property names of all of them, so a load says exactly what is stored at its path.
-/

namespace ScopedConfig

open Scope (Path)
open Merge (Totals)
open ScopedConfig.Except

/-! ## Levels that are there -/

namespace Merge

variable {rules : Rules} {type : Schema.Record}

theorem levelsFrom_present (above : Option Node) (levels : List (Option Node)) :
    levelsFrom rules type above levels =
      levelsFrom rules type above (levels.reduceOption.map some) := by
  induction levels generalizing above with
  | nil => rfl
  | cons level rest ih =>
    match above, level with
    | above, none => rw [levelsFrom, List.reduceOption_cons_of_none, ih]
    | none, some level =>
      rw [List.reduceOption_cons_of_some, List.map_cons, levelsFrom, levelsFrom, ih]
    | some parent, some level =>
      rw [List.reduceOption_cons_of_some, List.map_cons, levelsFrom, levelsFrom]
      simp only [ih]

theorem levels_congr {all all' : List (Option Node)} (h : all.reduceOption = all'.reduceOption) :
    levels rules type all = levels rules type all' := by
  rw [levels, levels, levelsFrom_present, h, ← levelsFrom_present]

theorem levels_single {all : List (Option Node)} {n : Node} (h : all.reduceOption = [n]) :
    levels rules type all = .ok (some n, .zero) := by
  rw [levels, levelsFrom_present, h]
  rfl

/-! ## What is carried through -/

/-- The node has the metadata and the declared names of the other. -/
structure Carries (node last : Node) : Prop where
  info : node.info = last.info
  declared : node.declared? = last.declared?

theorem Carries.refl (n : Node) : Carries n n := ⟨rfl, rfl⟩

theorem complex_carries {place : String} {parent child node : Node} {stale : Totals}
    (h : complex rules place type parent child = .ok (node, stale)) : Carries node child := by
  obtain ⟨-, info, own, declared, merged, rfl, -, rfl⟩ := complex_ok h
  exact ⟨rfl, rfl⟩

theorem levelsFrom_carries {above : Option Node} {levels : List (Option Node)} {node : Node}
    {stale : Totals} (h : levelsFrom rules type above levels = .ok (some node, stale)) :
    ∃ last, (above.toList ++ levels.reduceOption).getLast? = some last ∧ Carries node last := by
  induction levels generalizing above stale with
  | nil =>
    cases h
    exact ⟨node, rfl, .refl node⟩
  | cons level rest ih =>
    match above, level with
    | above, none =>
      rw [levelsFrom] at h
      rw [List.reduceOption_cons_of_none]
      exact ih h
    | none, some level =>
      rw [levelsFrom] at h
      rw [List.reduceOption_cons_of_some]
      exact ih h
    | some parent, some level =>
      rw [levelsFrom] at h
      obtain ⟨⟨joined, first⟩, hjoined, h⟩ := bind_eq_ok.1 h
      obtain ⟨⟨result, others⟩, hrest, h⟩ := bind_eq_ok.1 h
      cases h
      obtain ⟨last, hlast, hcarries⟩ := ih hrest
      rw [List.reduceOption_cons_of_some]
      -- The joined node stands for the level that it was joined from.
      cases hpresent : rest.reduceOption with
      | nil =>
        rw [hpresent] at hlast
        cases hlast
        have hlevel := complex_carries hjoined
        exact ⟨level, rfl, hcarries.info.trans hlevel.info,
          hcarries.declared.trans hlevel.declared⟩
      | cons n others =>
        refine ⟨last, ?_, hcarries⟩
        simpa [hpresent] using hlast

theorem property?_isSome_iff {n : Node} {name : String} :
    (n.property? name).isSome = true ↔ name ∈ (n.properties?.getD []).map Prod.fst := by
  rw [property?_eq_lookup, Keyed.lookup_isSome_iff]

theorem complex_names {place name : String} {parent child node : Node} {stale : Totals}
    (h : complex rules place type parent child = .ok (node, stale)) :
    (node.property? name).isSome = true ↔
      (parent.property? name).isSome = true ∨ (child.property? name).isSome = true := by
  obtain ⟨-, info, own, declared, merged, rfl, hmerged, rfl⟩ := complex_ok h
  have hown := properties_names hmerged
  simp only [property?_isSome_iff]
  change name ∈ (Keyed.fillFrom (parent.properties?.getD []) merged).map Prod.fst ↔
    _ ∨ name ∈ own.map Prod.fst
  rw [← hown]
  constructor
  · intro hname
    obtain ⟨e, he, rfl⟩ := List.mem_map.1 hname
    exact (Keyed.mem_fillFrom he).imp List.mem_map_of_mem List.mem_map_of_mem
  · rintro (hname | hname)
    · exact Keyed.subset_fillFrom _ _ hname
    · obtain ⟨n, hn⟩ := Option.isSome_iff_exists.1 (Keyed.lookup_isSome_iff.2 hname)
      rw [← Keyed.lookup_isSome_iff, Keyed.lookup_fillFrom_of_some _ hn]
      rfl

theorem levelsFrom_names {above : Option Node} {levels : List (Option Node)} {node : Node}
    {stale : Totals} (name : String)
    (h : levelsFrom rules type above levels = .ok (some node, stale)) :
    (node.property? name).isSome = true ↔
      ∃ n ∈ above.toList ++ levels.reduceOption, (n.property? name).isSome = true := by
  induction levels generalizing above stale with
  | nil =>
    cases h
    simp
  | cons level rest ih =>
    match above, level with
    | above, none =>
      rw [levelsFrom] at h
      rw [List.reduceOption_cons_of_none, ih h]
    | none, some level =>
      rw [levelsFrom] at h
      rw [List.reduceOption_cons_of_some, ih h]
      rfl
    | some parent, some level =>
      rw [levelsFrom] at h
      obtain ⟨⟨joined, first⟩, hjoined, h⟩ := bind_eq_ok.1 h
      obtain ⟨⟨result, others⟩, hrest, h⟩ := bind_eq_ok.1 h
      cases h
      rw [List.reduceOption_cons_of_some, ih hrest]
      simp [complex_names hjoined, or_assoc]

end Merge

/-! ## Paths above one another -/

namespace Scope.Path

variable {p q : Path}

theorem mem_ancestry_iff : q ∈ p.ancestry ↔ p.extends? q = true := by
  refine ⟨extends?_of_mem_ancestry, fun h => ?_⟩
  obtain ⟨rest, hrest⟩ := extends?_iff.1 h
  have hlen : q.segments.length ≤ p.segments.length := by
    rw [← hrest, List.length_append]
    omega
  have hpos : 0 < q.segments.length := List.length_pos_iff.2 q.segments_ne_nil
  refine List.mem_map.2 ⟨q.segments.length - 1, List.mem_range.2 (by omega), ?_⟩
  ext1
  rw [segments_upTo, ← hrest, Nat.sub_add_cancel hpos, List.take_left]

theorem extends?_antisymm (hpq : p.extends? q = true) (hqp : q.extends? p = true) : p = q := by
  rw [extends?_iff] at hpq hqp
  ext1
  exact hqp.eq_of_length (Nat.le_antisymm hqp.length_le hpq.length_le)

theorem ancestry_pairwise (p : Path) : p.ancestry.Pairwise fun a b => b.extends? a = true := by
  rw [ancestry, List.pairwise_map]
  refine List.pairwise_lt_range.imp fun {i j} hij => ?_
  rw [extends?_iff, segments_upTo, segments_upTo]
  exact List.take_prefix_take_left (by omega)

end Scope.Path

/-! ## Stores -/

namespace Store

variable {rules : Rules} {st : Store} {path q : Path} {n : Node}

/-- Each snapshot that can be read was defined at the path that it is stored at. -/
def Placed (st : Store) : Prop :=
  ∀ (path : Path) (n : Node), st.stored? path = some n → n.definedAt = path

theorem placed_empty : (memory .empty).Placed := by
  intro path n h
  cases h

theorem step_placed {call : Call} (hst : st.Keeps) (h : st.Placed) :
    (st.step rules call).2.Placed := by
  intro path n hn
  rw [stored?_eq_some] at hn
  obtain hsame | ⟨type, previous, node, above, -, -, hload⟩ | hgone := step_load rules call hst path
  · rw [hsame] at hn
    exact h path n (stored?_eq_some.2 hn)
  · rw [hload] at hn
    cases hn
    exact Stamp.definedAt_stamp ..
  · rw [hgone] at hn
    cases hn

theorem after_placed {calls : List Call} (hst : st.Keeps) (h : st.Placed) :
    (st.after rules calls).Placed :=
  after_induction hst (motive := Placed) h fun _ hst h => step_placed hst h

theorem mapM_load_ok {paths : List Path} {levels : List (Option Node)}
    (h : paths.mapM st.load = .ok levels) : levels = paths.map st.stored? := by
  induction paths generalizing levels with
  | nil =>
    cases h
    rfl
  | cons path rest ih =>
    rw [List.mapM_cons] at h
    obtain ⟨held, hheld, h⟩ := bind_eq_ok.1 h
    obtain ⟨others, hothers, h⟩ := bind_eq_ok.1 h
    cases h
    rw [List.map_cons, ← ih hothers, stored?, hheld]

/-- The snapshot is stored at a prefix of the path, and none at a longer one. -/
structure Nearest (st : Store) (path q : Path) (n : Node) : Prop where
  above : path.extends? q = true
  held : st.stored? q = some n
  longest : ∀ {other : Path}, path.extends? other = true → (st.stored? other).isSome = true →
    q.extends? other = true

theorem nearest_of_last (h : (path.ancestry.map st.stored?).reduceOption.getLast? = some n) :
    ∃ q, st.Nearest path q n := by
  obtain ⟨init, hinit⟩ := List.getLast?_eq_some_iff.1 h
  rw [List.reduceOption, List.filterMap_map, Function.id_comp] at hinit
  obtain ⟨upper, lower, hsplit, -, hlower⟩ := List.filterMap_eq_append_iff.1 hinit
  obtain ⟨gap, q, below, rfl, hgap, hq, hbelow⟩ := List.filterMap_eq_cons_iff.1 hlower
  rw [List.filterMap_eq_nil_iff] at hbelow
  have hpairwise := path.ancestry_pairwise
  refine ⟨q, Path.mem_ancestry_iff.1 (by simp [hsplit]), hq, fun {other} hother hstored => ?_⟩
  rw [← Path.mem_ancestry_iff, hsplit, ← List.append_assoc] at hother
  rw [hsplit, ← List.append_assoc, List.pairwise_append] at hpairwise
  rcases List.mem_append.1 hother with hupper | hlower
  · exact hpairwise.2.2 other hupper q List.mem_cons_self
  · rcases List.mem_cons.1 hlower with rfl | hmem
    · exact Path.extends?_self other
    · simp [hbelow other hmem] at hstored

/-- What a load of the path answers with, given the nearest snapshot. -/
structure Shows (st : Store) (path : Path) (r : Resolved) (n : Node) : Prop where
  info : r.node.info = n.info
  declared : r.node.declared? = n.declared?
  names : ∀ name, (r.node.property? name).isSome = true ↔
    ∃ q m, path.extends? q = true ∧ st.stored? q = some m ∧ (m.property? name).isSome = true
  isNew : r.isNew = true ↔ st.stored? path = none
  version : r.storedVersion = versionOf (st.stored? path)

theorem resolve_none {typeName : String} {resolved : Option Resolved} {stale : Totals}
    (h : st.resolve rules path typeName = .ok (resolved, stale)) :
    resolved = none ↔ ∀ q, path.extends? q = true → st.stored? q = none := by
  obtain ⟨type, levels, merged, -, hlevels, hmerged, rfl⟩ := resolve_ok.1 h
  have hstored := mapM_load_ok hlevels
  rw [Option.map_eq_none_iff]
  constructor
  · rintro rfl q hq
    refine (Merge.levelsFrom_none hmerged).2 (st.stored? q) ?_
    rw [hstored]
    exact List.mem_map_of_mem (Path.mem_ancestry_iff.2 hq)
  · intro hnone
    have hpresent : levels.reduceOption = [] := by
      rw [hstored, List.reduceOption, List.filterMap_map, Function.id_comp,
        List.filterMap_eq_nil_iff]
      exact fun q hq => hnone q (Path.mem_ancestry_iff.1 hq)
    rw [Merge.levels, Merge.levelsFrom_present, hpresent] at hmerged
    cases hmerged
    rfl

/-- What the levels of a path merge to says of itself what the nearest snapshot says. -/
theorem nearest_of_levels {type : Schema.Record} {levels : List (Option Node)} {node : Node}
    {stale : Totals} (hlevels : path.ancestry.mapM st.load = .ok levels)
    (hmerged : Merge.levels rules.toRules type levels = .ok (some node, stale)) :
    ∃ q n, st.Nearest path q n ∧ Merge.Carries node n := by
  obtain ⟨n, hlast, hcarries⟩ := Merge.levelsFrom_carries hmerged
  rw [mapM_load_ok hlevels] at hlast
  obtain ⟨q, hnearest⟩ := nearest_of_last hlast
  exact ⟨q, n, hnearest, hcarries⟩

theorem Placed.definedAt_nearest (hplaced : st.Placed) {node : Node} (h : st.Nearest path q n)
    (hcarries : Merge.Carries node n) : node.definedAt = q := by
  rw [Node.definedAt, hcarries.info]
  exact hplaced q n h.held

theorem resolve_shows (hplaced : st.Placed) {typeName : String} {r : Resolved} {stale : Totals}
    (h : st.resolve rules path typeName = .ok (some r, stale)) :
    ∃ q n, st.Nearest path q n ∧ st.Shows path r n := by
  obtain ⟨type, levels, merged, -, hlevels, hmerged, hr⟩ := resolve_ok.1 h
  obtain ⟨node, rfl, rfl⟩ := Option.map_eq_some_iff.1 hr.symm
  obtain ⟨q, n, hnearest, hcarries⟩ := nearest_of_levels hlevels hmerged
  have hplace := hplaced.definedAt_nearest hnearest hcarries
  refine ⟨q, n, hnearest, hcarries.info, hcarries.declared, fun name => ?_, ?_, ?_⟩
  · rw [Merge.levelsFrom_names name hmerged, mapM_load_ok hlevels]
    simp only [Option.toList_none, List.nil_append, List.reduceOption_mem_iff, List.mem_map,
      Path.mem_ancestry_iff]
    constructor
    · rintro ⟨m, ⟨other, hother, hm⟩, hname⟩
      exact ⟨other, m, hother, hm, hname⟩
    · rintro ⟨other, m, hother, hm, hname⟩
      exact ⟨m, ⟨other, hother, hm⟩, hname⟩
  · rw [bne_iff_ne, hplace]
    constructor
    · intro hne
      by_contra hheld
      have hself := hnearest.longest path.extends?_self (Option.ne_none_iff_isSome.1 hheld)
      exact hne (Path.extends?_antisymm hself hnearest.above)
    · rintro hnone rfl
      rw [hnearest.held] at hnone
      cases hnone
  · obtain ⟨held, hheld, hat⟩ := mapM_ancestry_last hlevels
    rw [hat, stored?, hheld]
    rfl

end Store

/-- A load that succeeds answers nothing exactly if nothing is stored at a prefix of the path, and
else says what the nearest snapshot says of itself, which names the levels have, and whether and in
which version a snapshot is stored at the path itself. Absent levels count neither in what levels
merge to nor in what observers are told, and one level is merged to itself. -/
theorem load_reports_exactly {rules : Rules} {m : Store.Memory} {capacity : Nat}
    {history : List Call} {s : Service} (hm : (Store.memory m).Placed)
    (hs : (Service.start (.memory m) capacity).after rules history = s) :
    (∀ (path : Path) (typeName : String) (resolved : Option Resolved),
      (s.load rules path typeName).result = .ok resolved →
      (resolved = none ↔ ∀ q, path.extends? q = true → s.store.stored? q = none) ∧
        ∀ r, resolved = some r → ∃ q n, s.store.Nearest path q n ∧ s.store.Shows path r n) ∧
      (∀ (type : Schema.Record) (all all' : List (Option Node)),
        all.reduceOption = all'.reduceOption →
        Merge.levels rules.toRules type all = Merge.levels rules.toRules type all') ∧
      ∀ (type : Schema.Record) (all : List (Option Node)) (n : Node), all.reduceOption = [n] →
        Merge.levels rules.toRules type all = .ok (some n, .zero) := by
  have hkeeps := Store.keeps_memory m
  obtain ⟨-, hover⟩ := Service.run_spec rules history (Service.start_over (.memory m) capacity)
    hkeeps
  have hplaced := @Store.after_placed rules _ history hkeeps hm
  rw [hs] at hover
  rw [← hover.store] at hplaced hover
  refine ⟨fun path typeName resolved hload => ?_, fun type _ _ => Merge.levels_congr,
    fun type _ _ => Merge.levels_single⟩
  obtain ⟨stale, hresolve, -⟩ := Service.load_ok hover hload
  refine ⟨Store.resolve_none hresolve, ?_⟩
  rintro r rfl
  exact Store.resolve_shows hplaced hresolve

namespace Sample

/-- A user for whom nothing is stored is shown what is stored above, as new and in version 0. -/
theorem unsaved_user_is_new :
    ∃ r q n, ((served [save global "80"]).load rules alice "App").result = .ok (some r) ∧
      (served [save global "80"]).store.Nearest alice q n ∧
      (served [save global "80"]).store.Shows alice r n ∧ r.isNew = true ∧ r.storedVersion = 0 := by
  obtain ⟨hload, -, -⟩ := @load_reports_exactly rules .empty 2 [save global "80"]
    (served [save global "80"]) Store.placed_empty rfl
  obtain ⟨r, hr⟩ : ∃ r,
      ((served [save global "80"]).load rules alice "App").result = .ok (some r) := ⟨_, rfl⟩
  obtain ⟨q, n, hnearest, hshows⟩ := (hload alice "App" (some r) hr).2 r rfl
  have habsent : (served [save global "80"]).store.stored? alice = none := by decide
  refine ⟨r, q, n, hr, hnearest, hshows, hshows.isNew.2 habsent, ?_⟩
  rw [hshows.version, habsent]
  rfl

end Sample

end ScopedConfig
