import ScopedConfig.Proofs.Resolution

/-!
# Removed subtrees

Where a subtree was removed, every path of it is answered what the path above the subtree is
answered. A removal counts the snapshots that it removes, and a listing leaves out those paths.
-/

namespace ScopedConfig

open Scope (Path)
open Store (Memory)
open Merge (Totals)
open ScopedConfig.Except

/-! ## Paths of a subtree -/

namespace Scope.Path

variable {p q parent : Path}

@[elab_as_elim]
theorem parent_induction {motive : Path → Prop} (root : ∀ q, q.parent? = none → motive q)
    (child : ∀ q parent, q.parent? = some parent → motive parent → motive q) (q : Path) :
    motive q := by
  induction hlen : q.segments.length generalizing q with
  | zero => exact absurd (List.length_eq_zero_iff.1 hlen) q.segments_ne_nil
  | succ n ih =>
    cases hparent : q.parent? with
    | none => exact root q hparent
    | some parent =>
      obtain ⟨k, hk, rfl⟩ := parent?_eq_some hparent
      refine child q _ hparent (ih _ ?_)
      rw [segments_upTo, List.length_take]
      omega

theorem ancestry_of_extends (hparent : p.parent? = some parent) (h : q.extends? p = true) :
    ∃ below, q.ancestry = parent.ancestry ++ below ∧ ∀ r ∈ below, r.extends? p = true := by
  induction q using parent_induction with
  | root q hq =>
    rw [← mem_ancestry_iff, ancestry_of_root hq, List.mem_singleton] at h
    subst h
    rw [hq] at hparent
    cases hparent
  | child q above hq ih =>
    have hmem := mem_ancestry_iff.2 h
    rw [ancestry_of_parent hq, List.mem_append, List.mem_singleton] at hmem
    rw [ancestry_of_parent hq]
    rcases hmem with habove | rfl
    · obtain ⟨below, hbelow, hall⟩ := ih (mem_ancestry_iff.1 habove)
      refine ⟨below ++ [q], by rw [hbelow, List.append_assoc], ?_⟩
      simpa [or_imp, forall_and] using ⟨hall, h⟩
    · rw [hq] at hparent
      cases hparent
      exact ⟨[p], rfl, by simp [extends?_self]⟩

theorem extends?_of_root (hroot : p.parent? = none) (h : q.extends? p = true) {r : Path}
    (hr : r ∈ q.ancestry) : r.extends? p = true := by
  induction q using parent_induction with
  | root q hq =>
    rw [ancestry_of_root hq, List.mem_singleton] at hr
    rwa [hr]
  | child q above hq ih =>
    have hmem := mem_ancestry_iff.2 h
    rw [ancestry_of_parent hq, List.mem_append, List.mem_singleton] at hmem hr
    rcases hmem with habove | rfl
    · rcases hr with hr | rfl
      · exact ih (mem_ancestry_iff.1 habove) hr
      · exact h
    · rw [hq] at hroot
      cases hroot

theorem extends?_parent (hparent : p.parent? = some parent) : p.extends? parent = true := by
  rw [← mem_ancestry_iff, ancestry_of_parent hparent]
  exact List.mem_append_left _ parent.mem_ancestry_self

theorem not_extends_parent (hparent : p.parent? = some parent) : parent.extends? p = false := by
  rw [← Bool.not_eq_true, ← mem_ancestry_iff]
  exact fun hmem => ne_of_mem_parent hparent hmem rfl

end Scope.Path

theorem Rules.rootType_above {rules : Rules} {q r : Path} {typeName : String}
    {type : Schema.Record} (h : rules.rootType q typeName = .ok type) (hr : q.extends? r = true) :
    rules.rootType r typeName = .ok type := by
  rw [← Path.mem_ancestry_iff] at hr
  induction q using Path.parent_induction with
  | root q hq =>
    rw [Path.ancestry_of_root hq, List.mem_singleton] at hr
    rwa [hr]
  | child q above hq ih =>
    rw [Path.ancestry_of_parent hq, List.mem_append, List.mem_singleton] at hr
    rcases hr with hr | rfl
    · exact ih (rootType_parent hq h) hr
    · exact h

/-! ## Loads in a subtree that was removed -/

/-- The same configuration at a path that holds nothing. -/
def Resolved.inherited (r : Resolved) : Resolved := ⟨r.node, true, 0⟩

namespace Store

variable {rules : Rules} {st st' : Store} {p q parent : Path} {typeName : String}

theorem mapM_load_removed {paths : List Path} (h : ∀ q ∈ paths, st'.load q = .ok none) :
    paths.mapM st'.load = .ok (paths.map fun _ => none) := by
  induction paths with
  | nil => rfl
  | cons path rest ih =>
    rw [List.forall_mem_cons] at h
    rw [List.mapM_cons, h.1, ih h.2]
    rfl

theorem resolve_root_removed {type : Schema.Record} (hremoved : st.Sets st' (·.extends? p) none)
    (hroot : p.parent? = none) (hq : q.extends? p = true)
    (htype : rules.rootType q typeName = .ok type) :
    st'.resolve rules q typeName = .ok (none, .zero) := by
  have hlevels : q.ancestry.mapM st'.load = .ok (q.ancestry.map fun _ => none) := by
    refine mapM_load_removed fun r hr => ?_
    rw [hremoved r, if_pos (Path.extends?_of_root hroot hq hr)]
  have hpresent : (q.ancestry.map fun _ => (none : Option Node)).reduceOption =
      ([] : List (Option Node)).reduceOption := by
    simp [List.reduceOption]
  refine resolve_ok.2 ⟨type, _, none, htype, hlevels, ?_, rfl⟩
  rw [Merge.levels_congr hpresent]
  rfl

/-- A path of the subtree is answered as the path above the subtree is, with a node that was not
defined there. -/
theorem resolve_removed {type : Schema.Record} (hplaced : st.Placed)
    (hremoved : st.Sets st' (·.extends? p) none) (hparent : p.parent? = some parent)
    (hq : q.extends? p = true) (htype : rules.rootType q typeName = .ok type) :
    st'.resolve rules q typeName =
      (st.resolve rules parent typeName).map fun r => (r.1.map Resolved.inherited, r.2) := by
  obtain ⟨below, hbelow, hall⟩ := Path.ancestry_of_extends hparent hq
  have houtside := Path.not_extends_parent hparent
  have habove : rules.rootType parent typeName = .ok type :=
    Rules.rootType_above htype (Path.extends?_trans hq (Path.extends?_parent hparent))
  have hupper : parent.ancestry.mapM st'.load = parent.ancestry.mapM st.load :=
    mapM_load_congr fun r hr => by
      simp [hremoved r, Path.not_extends_of_mem houtside hr]
  have hlower : below.mapM st'.load = .ok (below.map fun _ => none) :=
    mapM_load_removed fun r hr => by rw [hremoved r, if_pos (hall r hr)]
  -- The path itself is one of the levels that hold nothing.
  have hmem : q ∈ below := by
    have hself := q.mem_ancestry_self
    rw [hbelow, List.mem_append] at hself
    refine hself.resolve_left fun hmem => ?_
    rw [Path.not_extends_of_mem houtside hmem] at hq
    cases hq
  rw [resolve, resolve, htype, habove]
  simp only [bind, Except.bind, hbelow, List.mapM_append, hupper, hlower]
  cases hlevels : parent.ancestry.mapM st.load with
  | error e => rfl
  | ok levels =>
    have hpresent : (levels ++ below.map fun _ => none).reduceOption = levels.reduceOption := by
      simp [List.reduceOption]
    have hlast : (levels ++ below.map fun _ => none).getLast?.bind id = none := by
      obtain ⟨init, r, rfl⟩ := (List.eq_nil_or_concat below).resolve_left (List.ne_nil_of_mem hmem)
      simp
    simp only [pure, Except.pure, Service.resolve, bind, Except.bind, hlast,
      Merge.levels_congr hpresent]
    cases hmerged : Merge.levels rules.toRules type levels with
    | error e => rfl
    | ok r =>
      obtain ⟨_ | node, stale⟩ := r
      · rfl
      · obtain ⟨place, n, hnearest, hcarries⟩ := nearest_of_levels hlevels hmerged
        have hne : node.definedAt ≠ q := by
          rw [hplaced.definedAt_nearest hnearest hcarries]
          rintro rfl
          rw [Path.not_extends_of_mem houtside (Path.mem_ancestry_iff.2 hnearest.above)] at hq
          cases hq
        simp [Except.map, Resolved.inherited, hne]

/-! ## Stores in memory -/

/-- The entries are in order, and each snapshot was defined where it is stored. -/
structure Memory.Filed (m : Memory) : Prop where
  sorted : Keyed.Sorted m.entries
  placed : (memory m).Placed

theorem op_sorted {m : Memory} {condition : Path → Bool} {held : Option Node}
    (hm : Keyed.Sorted m.entries) (h : Op (memory m) st' condition held) :
    ∃ m', st' = memory m' ∧ Keyed.Sorted m'.entries := by
  cases h with
  | save h =>
    cases h
    exact ⟨_, rfl, Keyed.sorted_insert _ _ hm⟩
  | update h =>
    obtain ⟨m', hm', rfl⟩ := map_eq_ok.1 h
    obtain ⟨rfl, -⟩ := Memory.update_ok hm'
    exact ⟨_, rfl, Keyed.sorted_insert _ _ hm⟩
  | delete h | deleteMentioning h =>
    cases h
    exact ⟨_, rfl, hm.filter _⟩

theorem after_filed (rules : Rules) (calls : List Call) {m : Memory} (h : m.Filed) :
    ∃ m', (memory m).after rules calls = memory m' ∧ m'.Filed := by
  have hst := keeps_memory m
  obtain ⟨m', hm', hsorted⟩ : ∃ m', (memory m).after rules calls = memory m' ∧
      Keyed.Sorted m'.entries := by
    refine after_induction (motive := fun st => ∃ m, st = memory m ∧ Keyed.Sorted m.entries) hst
      ⟨m, rfl, h.sorted⟩ ?_
    rintro _ call - - ⟨m, rfl, hm⟩
    obtain hsame | ⟨node, -, path, type, previous, above, -, -, hop⟩ | ⟨condition, hop⟩ :=
      step_change rules (memory m) call
    · exact ⟨m, hsame, hm⟩
    · exact op_sorted hm hop
    · exact op_sorted hm hop
  refine ⟨m', hm', hsorted, ?_⟩
  rw [← hm']
  exact after_placed hst h.placed

theorem Memory.mem_paths_iff {m : Memory} {q : Path} :
    q ∈ m.entries.map Prod.fst ↔ ((memory m).stored? q).isSome = true := by
  rw [← Keyed.lookup_isSome_iff]
  rfl

theorem Memory.count_removed (m : Memory) (condition : Path → Bool) :
    (m.removeWhere condition).1 = ((m.entries.map Prod.fst).filter condition).length := by
  rw [Memory.count_removeWhere, List.filter_map, List.length_map]
  rfl

theorem Memory.mem_list_iff {m : Memory} {name : String} {properties : List (String × String)} :
    q ∈ m.list name properties ↔
      ((memory m).stored? q).isSome = true ∧ q.mentions name properties = true := by
  rw [Memory.list, List.mem_filter, Memory.mem_paths_iff]

theorem Memory.load_listed (m : Memory) (name : String) (properties : List (String × String))
    (q : Path) :
    (memory (m.deleteMentioning name properties).2).load q =
      if q ∈ m.list name properties then .ok none else (memory m).load q := by
  rw [Store.load, Memory.deleteMentioning, Memory.load_removeWhere]
  by_cases hmentions : q.mentions name properties = true
  · rw [if_pos hmentions]
    split
    case isTrue => rfl
    case isFalse hq =>
      have habsent : (memory m).stored? q = none := by
        simpa [Memory.mem_list_iff, hmentions] using hq
      exact congrArg Except.ok habsent.symm
  · have hq : q ∉ m.list name properties := fun hq => hmentions (Memory.mem_list_iff.1 hq).2
    rw [if_neg hmentions, if_neg hq]
    rfl

theorem Memory.list_removed (m : Memory) (condition : Path → Bool) (name : String)
    (properties : List (String × String)) :
    (m.removeWhere condition).2.list name properties =
      (m.list name properties).filter fun q => !condition q := by
  rw [Memory.list, Memory.list, List.filter_comm]
  congr 1
  rw [List.filter_map]
  rfl

end Store

/-! ## Services -/

namespace Service

variable {rules : Rules} {s : Service} {m : Memory} {p q : Path} {typeName : String}

/-- What the path above is answered, for a path that holds nothing. -/
def inherited (rules : Rules) (s : Service) (p : Path) (typeName : String) :
    Except Error (Option Resolved) :=
  match p.parent? with
  | none => .ok none
  | some parent => (s.load rules parent typeName).result.map fun r => r.map Resolved.inherited

theorem delete_below_spec (p : Path) (hover : s.Over (.memory m)) :
    (s.delete p true).result = .ok (m.removeWhere (·.extends? p)).1 ∧
      (s.delete p true).service.Over (.memory (m.removeWhere (·.extends? p)).2) := by
  obtain ⟨hresult, -, hservice⟩ := @delete_spec _ _ p true hover (Store.keeps_memory m)
  exact ⟨hresult, hservice⟩

theorem list_spec (hover : s.Over (.memory m)) (name : String)
    (properties : List (String × String)) :
    (s.list name properties).result = .ok (m.list name properties) := by
  rw [list, hover.store]
  rfl

theorem delete_counts (p : Path) (hover : s.Over (.memory m)) (hm : m.Filed) :
    ∃ removed : List Path, removed.Nodup ∧
      (∀ q, q ∈ removed ↔ q.extends? p = true ∧ (s.store.stored? q).isSome = true) ∧
      (s.delete p true).result = .ok removed.length := by
  refine ⟨(m.entries.map Prod.fst).filter (·.extends? p),
    (Keyed.nodup_of_sorted hm.sorted).filter _, fun q => ?_, ?_⟩
  · rw [List.mem_filter, Memory.mem_paths_iff, hover.store, and_comm]
  · rw [(delete_below_spec p hover).1, Memory.count_removed]

theorem load_removed {type : Schema.Record} (hover : s.Over (.memory m)) (hm : m.Filed)
    (hq : q.extends? p = true) (htype : rules.rootType q typeName = .ok type) :
    ((s.delete p true).service.load rules q typeName).result = s.inherited rules p typeName := by
  obtain ⟨-, hafter⟩ := delete_below_spec p hover
  have hremoved := Store.sets_removeWhere m (·.extends? p)
  obtain ⟨hload, -⟩ := load_spec rules q typeName hafter
  rw [hload, inherited]
  cases hparent : p.parent? with
  | none =>
    rw [Store.resolve_root_removed hremoved hparent hq htype]
    rfl
  | some parent =>
    obtain ⟨habove, -⟩ := load_spec rules parent typeName hover
    simp only [habove, Store.resolve_removed hm.placed hremoved hparent hq htype]
    cases (Store.memory m).resolve rules parent typeName <;> rfl

theorem inherited_removed (p : Path) (typeName : String) (hover : s.Over (.memory m)) :
    (s.delete p true).service.inherited rules p typeName = s.inherited rules p typeName := by
  obtain ⟨-, hafter⟩ := delete_below_spec p hover
  rw [inherited, inherited]
  cases hparent : p.parent? with
  | none => rfl
  | some parent =>
    have hsame : ∀ r ∈ parent.ancestry,
        (Store.memory (m.removeWhere (·.extends? p)).2).load r = (Store.memory m).load r := by
      intro r hr
      simp [Store.sets_removeWhere m _ r,
        Path.not_extends_of_mem (Path.not_extends_parent hparent) hr]
    have hload : ((s.delete p true).service.load rules parent typeName).result =
        (s.load rules parent typeName).result := (load_congr hover hafter hsame).1
    simp only [hload]

theorem list_removed (p : Path) (hover : s.Over (.memory m)) (name : String)
    (properties : List (String × String)) :
    ∃ paths, (s.list name properties).result = .ok paths ∧
      ((s.delete p true).service.list name properties).result =
        .ok (paths.filter fun q => !q.extends? p) := by
  obtain ⟨-, hafter⟩ := delete_below_spec p hover
  refine ⟨_, list_spec hover name properties, ?_⟩
  rw [list_spec hafter, Memory.list_removed]

theorem deleteMentioning_removes (hover : s.Over (.memory m)) (name : String)
    (properties : List (String × String)) :
    ∃ paths, (s.list name properties).result = .ok paths ∧
      (s.deleteMentioning name properties).result = .ok paths.length ∧
      (∀ q ∈ paths, (s.store.stored? q).isSome = true) ∧
      ∀ q, (s.deleteMentioning name properties).service.store.load q =
        if q ∈ paths then .ok none else s.store.load q := by
  obtain ⟨hresult, -, hservice⟩ := @deleteMentioning_spec _ _ name properties hover
  refine ⟨_, list_spec hover name properties, ?_, fun q hq => ?_, fun q => ?_⟩
  · rw [hresult]
    exact congrArg Except.ok (m.count_removed (·.mentions name properties))
  · rw [hover.store]
    exact (Memory.mem_list_iff.1 hq).1
  · rw [hservice.store, hover.store]
    exact m.load_listed name properties q

end Service

/-- Deleting a subtree counts what was stored in it. Afterwards every accepted path of it is
answered as the path above the subtree is, as new and in version 0, and a listing leaves out its
paths and no others. Deleting by a scope counts the paths that a listing reports, and empties those
paths and no others. -/
theorem removal_is_exact {rules : Rules} {m : Store.Memory} {capacity : Nat} {history : List Call}
    {s : Service} (hm : m.Filed)
    (hs : (Service.start (.memory m) capacity).after rules history = s) :
    (∀ p : Path,
      (∃ removed : List Path, removed.Nodup ∧
        (∀ q, q ∈ removed ↔ q.extends? p = true ∧ (s.store.stored? q).isSome = true) ∧
        (s.delete p true).result = .ok removed.length) ∧
      (∀ (q : Path) (typeName : String) (type : Schema.Record), q.extends? p = true →
        rules.rootType q typeName = .ok type →
        ((s.delete p true).service.load rules q typeName).result = s.inherited rules p typeName ∧
          (s.delete p true).service.inherited rules p typeName = s.inherited rules p typeName) ∧
      ∀ (name : String) (properties : List (String × String)), ∃ paths,
        (s.list name properties).result = .ok paths ∧
          ((s.delete p true).service.list name properties).result =
            .ok (paths.filter fun q => !q.extends? p)) ∧
      ∀ (name : String) (properties : List (String × String)), ∃ paths,
        (s.list name properties).result = .ok paths ∧
          (s.deleteMentioning name properties).result = .ok paths.length ∧
          (∀ q ∈ paths, (s.store.stored? q).isSome = true) ∧
          ∀ q, (s.deleteMentioning name properties).service.store.load q =
            if q ∈ paths then .ok none else s.store.load q := by
  obtain ⟨-, hover⟩ := Service.run_spec rules history (Service.start_over (.memory m) capacity)
    (Store.keeps_memory m)
  obtain ⟨m', hm', hfiled⟩ := Store.after_filed rules history hm
  rw [hs, hm'] at hover
  refine ⟨fun p => ⟨Service.delete_counts p hover hfiled, fun q typeName type hq htype => ?_,
    Service.list_removed p hover⟩, Service.deleteMentioning_removes hover⟩
  exact ⟨Service.load_removed hover hfiled hq htype, Service.inherited_removed p typeName hover⟩

namespace Sample

/-- A user whose snapshot is deleted is shown the global snapshot from then on. -/
theorem removed_user_inherits :
    ∃ r, (outdated.load rules global "App").result = .ok (some r) ∧
      (outdated.delete alice true).result = .ok 1 ∧
      ((outdated.delete alice true).service.load rules alice "App").result =
        .ok (some r.inherited) := by
  obtain ⟨hdelete, -⟩ := @removal_is_exact rules .empty 2
    [save global "80", save alice "8080", save global "81"] outdated
    ⟨List.Pairwise.nil, Store.placed_empty⟩ rfl
  obtain ⟨-, hload, -⟩ := hdelete alice
  obtain ⟨r, hr⟩ : ∃ r, (outdated.load rules global "App").result = .ok (some r) := ⟨_, rfl⟩
  have hparent : alice.parent? = some global := by decide
  refine ⟨r, hr, by decide, ?_⟩
  rw [(hload alice "App" record (by decide) rfl).1, Service.inherited]
  simp only [hparent, hr]
  rfl

end Sample

end ScopedConfig
