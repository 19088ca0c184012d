import Mathlib.Algebra.BigOperators.Intervals
import Mathlib.Algebra.Order.BigOperators.Group.Finset
import Mathlib.Data.Set.Card
import ScopedConfig.Service
import ScopedConfig.Proofs.Places

/-!
# Stale pairs

The totals of a merge are compared with a count of its stale pairs. Which pairs of nodes a merge
meets, and where, is told by relations that follow the policies and compute nothing.
-/

namespace ScopedConfig

namespace Merge

open Schema Node ScopedConfig.Except

/-! ## The pairs that are met -/

/-- A declared property that both sides of a merge have. -/
structure Pair where
  property : Property
  parent : Node
  child : Node

namespace Pair

/-- Neither side is a list, set or map that is absent. -/
def IsPresent (pair : Pair) : Prop := pair.parent.isAbsent = false ∧ pair.child.isAbsent = false

/-- The child was saved against another scope or another version than the parent's. -/
def IsStale (pair : Pair) : Prop :=
  pair.IsPresent ∧ (pair.child.info.parentScope ≠ some pair.parent.scopeName ∨
    pair.child.info.parentVersion ≠ pair.parent.version)

/-- The values of the pair are looked at. -/
def IsKept (pair : Pair) : Prop :=
  pair.IsPresent ∧ ¬ (pair.IsStale ∧ pair.property.policy.stale = .useParent)

/-- The properties of the two values are merged. -/
def MergesValues (pair : Pair) : Prop :=
  pair.property.kind = .complex ∧ pair.property.polymorphic = false ∧
    (pair.parent.definedAt.isStructural = true ∨ pair.property.policy.value = .merge)

/-- The properties of items with one key are merged. -/
def MergesItems (pair : Pair) : Prop :=
  pair.parent.definedAt.isStructural = false ∧ pair.property.policy.item = .merge

/-- Where the pair's items or entries with this key stand. -/
def spot (pair : Pair) (key : String) : Spot :=
  if pair.property.kind = .map then .entry key else .member pair.property key

end Pair

mutual

/-- The merge of two complex nodes of this type meets a pair at this place. -/
inductive Meets (s : Schema) : Record → Node → Node → List Spot → Pair → Prop where
  | property {type : Record} {parent child above below : Node} {name : String} {p : Property}
    {place : List Spot} {pair : Pair} (hparent : parent.property? name = some above)
    (hchild : child.property? name = some below) (hdeclared : type.find? name = some p)
    (h : MeetsFrom s ⟨p, above, below⟩ place pair) :
    Meets s type parent child (.property name :: place) pair

/-- The merge of a pair meets the pair itself, and those inside unless it is settled before. Of
several items with one key the first counts. -/
inductive MeetsFrom (s : Schema) : Pair → List Spot → Pair → Prop where
  | here {outer : Pair} : MeetsFrom s outer [] outer
  | value {outer pair : Pair} {type : Record} {place : List Spot} (hkept : outer.IsKept)
    (hmerges : outer.MergesValues) (htype : s.find? outer.property.typeName = some type)
    (h : Meets s type outer.parent outer.child place pair) : MeetsFrom s outer place pair
  | item {outer pair : Pair} {type : Record} {key : String} {above below : Node}
    {place : List Spot} (hkept : outer.IsKept) (hmerges : outer.MergesItems)
    (htype : s.find? outer.property.typeName = some type)
    (hparent : (outer.parent.held s (outer.spot key)).head? = some above)
    (hchild : (outer.child.held s (outer.spot key)).head? = some below)
    (h : Meets s type above below place pair) : MeetsFrom s outer (outer.spot key :: place) pair

end

/-! ## Counting -/

/-- The number of the pairs that are stale, of those whose property has this stale policy. -/
noncomputable def staleCount (policy : StalePolicy) (met : List Spot → Pair → Prop) : ℕ∞ :=
  { x : List Spot × Pair |
    met x.1 x.2 ∧ x.2.IsStale ∧ x.2.property.policy.stale = policy }.encard

/-- The stale pairs that were counted for a policy. -/
def Totals.under (t : Totals) : StalePolicy → Nat
  | .useParent => t.discarded
  | .merge => t.merged

@[simp] theorem Totals.under_zero (policy : StalePolicy) : Totals.zero.under policy = 0 := by
  cases policy <;> rfl

@[simp] theorem Totals.under_add (a b : Totals) (policy : StalePolicy) :
    (a + b).under policy = a.under policy + b.under policy := by
  cases policy <;> rfl

variable {policy : StalePolicy} {met first second : List Spot → Pair → Prop}

theorem staleCount_eq_zero : staleCount policy met = 0 ↔
    ∀ place pair, met place pair → pair.IsStale → pair.property.policy.stale ≠ policy := by
  rw [staleCount, Set.encard_eq_zero, Set.eq_empty_iff_forall_notMem]
  constructor
  · exact fun h place pair hmet hstale hpolicy => h (place, pair) ⟨hmet, hstale, hpolicy⟩
  · exact fun h x ⟨hmet, hstale, hpolicy⟩ => h _ _ hmet hstale hpolicy

theorem staleCount_none (h : ∀ place pair, met place pair → ¬ pair.IsStale) :
    staleCount policy met = 0 :=
  staleCount_eq_zero.2 fun place pair hmet hstale => absurd hstale (h place pair hmet)

theorem zero_count (h : ∀ place pair, met place pair → ¬ pair.IsStale) :
    (Totals.zero.under policy : ℕ∞) = staleCount policy met := by
  rw [Totals.under_zero, Nat.cast_zero, staleCount_none h]

theorem staleCount_congr (h : ∀ place pair, first place pair ↔ second place pair) :
    staleCount policy first = staleCount policy second := by
  simp only [staleCount, h]

theorem staleCount_or (h : ∀ place pair, first place pair → ¬ second place pair) :
    staleCount policy (fun place pair => first place pair ∨ second place pair) =
      staleCount policy first + staleCount policy second := by
  rw [staleCount, staleCount, staleCount, ← Set.encard_union_eq]
  · congr 1
    ext x
    exact or_and_right
  · exact Set.disjoint_left.2 fun x hfirst hsecond => h _ _ hfirst.1 hsecond.1

theorem staleCount_below (spot : Spot) :
    staleCount policy (fun place pair => ∃ rest, place = spot :: rest ∧ met rest pair) =
      staleCount policy met := by
  have hinj : Function.Injective fun x : List Spot × Pair => (spot :: x.1, x.2) := by
    rintro ⟨place, pair⟩ ⟨place', pair'⟩ h
    simpa using h
  rw [staleCount, staleCount, ← hinj.encard_image { x | met x.1 x.2 ∧ _ }]
  congr 1
  ext ⟨place, pair⟩
  constructor
  · rintro ⟨⟨rest, rfl, hmet⟩, hstale⟩
    exact ⟨(rest, pair), ⟨hmet, hstale⟩, rfl⟩
  · rintro ⟨⟨rest, other⟩, ⟨hmet, hstale⟩, h⟩
    obtain ⟨rfl, rfl⟩ := Prod.mk.inj h
    exact ⟨⟨rest, rfl, hmet⟩, hstale⟩

/-- What is met below the entries of a list, each at the spot of its key. -/
def MeetsEach (spot : String → Spot) (own : List (String × Node))
    (met : String × Node → List Spot → Pair → Prop) (place : List Spot) (pair : Pair) : Prop :=
  ∃ e ∈ own, ∃ rest, place = spot e.1 :: rest ∧ met e rest pair

theorem staleCount_cons {spot : String → Spot} (hspot : Function.Injective spot)
    {e : String × Node} {own : List (String × Node)}
    {met : String × Node → List Spot → Pair → Prop} (hnew : e.1 ∉ own.map Prod.fst) :
    staleCount policy (MeetsEach spot (e :: own) met) =
      staleCount policy (met e) + staleCount policy (MeetsEach spot own met) := by
  have hdisjoint : ∀ place pair, (∃ rest, place = spot e.1 :: rest ∧ met e rest pair) →
      ¬ MeetsEach spot own met place pair := by
    rintro place pair ⟨rest, rfl, -⟩ ⟨e', he', rest', hplace, -⟩
    exact hnew (hspot (List.cons.inj hplace).1 ▸ List.mem_map_of_mem he')
  calc staleCount policy (MeetsEach spot (e :: own) met)
    _ = staleCount policy fun place pair => (∃ rest, place = spot e.1 :: rest ∧ met e rest pair) ∨
          MeetsEach spot own met place pair :=
        staleCount_congr fun place pair => List.exists_mem_cons_iff _ _ _
    _ = _ := by rw [staleCount_or hdisjoint, staleCount_below]

variable {rules : Rules}

/-! ## One pair -/

theorem isStale_iff {pair : Pair} (hpresent : pair.IsPresent) :
    pair.IsStale ↔ isStale pair.parent pair.child = true := by
  simp [Pair.IsStale, hpresent, isStale]

/-- The pairs inside a pair. -/
def MeetsInside (s : Schema) (outer : Pair) (place : List Spot) (pair : Pair) : Prop :=
  outer.IsKept ∧ ∃ type, s.find? outer.property.typeName = some type ∧
    (outer.MergesValues ∧ Meets s type outer.parent outer.child place pair ∨
      outer.MergesItems ∧ ∃ key above below rest, place = outer.spot key :: rest ∧
        (outer.parent.held s (outer.spot key)).head? = some above ∧
        (outer.child.held s (outer.spot key)).head? = some below ∧
        Meets s type above below rest pair)

theorem meetsFrom_iff {s : Schema} {outer pair : Pair} {place : List Spot} :
    MeetsFrom s outer place pair ↔
      (place = [] ∧ pair = outer) ∨ MeetsInside s outer place pair := by
  constructor
  · intro h
    cases h with
    | here => exact .inl ⟨rfl, rfl⟩
    | value hkept hmerges htype h => exact .inr ⟨hkept, _, htype, .inl ⟨hmerges, h⟩⟩
    | item hkept hmerges htype hparent hchild h =>
      exact .inr ⟨hkept, _, htype, .inr ⟨hmerges, _, _, _, _, rfl, hparent, hchild, h⟩⟩
  · rintro (⟨rfl, rfl⟩ | ⟨hkept, type, htype, ⟨hmerges, h⟩ |
      ⟨hmerges, key, above, below, rest, rfl, hparent, hchild, h⟩⟩)
    · exact .here
    · exact .value hkept hmerges htype h
    · exact .item hkept hmerges htype hparent hchild h

theorem meetsInside_ne_nil {s : Schema} {outer pair : Pair} {place : List Spot}
    (h : MeetsInside s outer place pair) : place ≠ [] := by
  rintro rfl
  obtain ⟨-, _, -, ⟨-, h⟩ | ⟨-, _, _, _, _, h, -⟩⟩ := h
  · cases h
  · cases h

theorem held_spot {s : Schema} {outer : Pair} {n : Node} {key : String} (hset : n.kind ≠ .set)
    (hmap : n.kind ≠ .map) : n.held s (outer.spot key) = [] := by
  unfold Pair.spot
  cases n with
  | simple | complex | list => split <;> rfl
  | set => exact absurd rfl hset
  | map => exact absurd rfl hmap

theorem inside_value_iff {s : Schema} {outer pair : Pair} {place : List Spot}
    (hheld : ∀ key, outer.child.held s (outer.spot key) = []) :
    MeetsInside s outer place pair ↔
      outer.IsKept ∧ ∃ type, s.find? outer.property.typeName = some type ∧
        outer.MergesValues ∧ Meets s type outer.parent outer.child place pair := by
  constructor
  · rintro ⟨hkept, type, htype, hmet | ⟨-, key, above, below, rest, -, -, hbelow, -⟩⟩
    · exact ⟨hkept, type, htype, hmet⟩
    · simp [hheld] at hbelow
  · rintro ⟨hkept, type, htype, hmet⟩
    exact ⟨hkept, type, htype, .inl hmet⟩

theorem staleCount_meetsFrom (policy : StalePolicy) (s : Schema) (outer : Pair) :
    staleCount policy (MeetsFrom s outer) =
      staleCount policy (fun place pair => place = [] ∧ pair = outer) +
        staleCount policy (MeetsInside s outer) := by
  rw [← staleCount_or fun place pair hhere hinside => meetsInside_ne_nil hinside hhere.1]
  exact staleCount_congr fun place pair => meetsFrom_iff

theorem staleCount_here {outer : Pair} (hstale : outer.IsStale) :
    staleCount outer.property.policy.stale (fun place pair => place = [] ∧ pair = outer) = 1 := by
  rw [staleCount, Set.encard_eq_one]
  refine ⟨([], outer), Set.ext fun x => ⟨?_, ?_⟩⟩
  · rintro ⟨⟨hplace, hpair⟩, -⟩
    exact Prod.ext hplace hpair
  · rintro rfl
    exact ⟨⟨rfl, rfl⟩, hstale, rfl⟩

theorem judge_count {p : Property} {parent child : Node}
    (hpresent : Pair.IsPresent ⟨p, parent, child⟩) :
    ((judge p.policy.stale parent child).2.under policy : ℕ∞) =
      staleCount policy fun place pair => place = [] ∧ pair = ⟨p, parent, child⟩ := by
  have hiff := isStale_iff hpresent
  cases hstale : isStale parent child with
  | false =>
    rw [judge_fresh hstale]
    refine zero_count ?_
    rintro _ _ ⟨-, rfl⟩
    simp [hiff, hstale]
  | true =>
    simp only [judge, hstale, if_true]
    by_cases hpolicy : p.policy.stale = policy
    · subst hpolicy
      rw [staleCount_here (hiff.2 hstale)]
      cases p.policy.stale <;> rfl
    · have hnone : staleCount policy (fun place pair => place = [] ∧ pair = ⟨p, parent, child⟩)
          = 0 := by
        refine staleCount_eq_zero.2 ?_
        rintro _ _ ⟨-, rfl⟩ -
        exact hpolicy
      rw [hnone]
      cases hown : p.policy.stale <;> cases policy <;> simp_all [Totals.under]

theorem isKept_iff {p : Property} {parent child : Node}
    (hpresent : Pair.IsPresent ⟨p, parent, child⟩) :
    Pair.IsKept ⟨p, parent, child⟩ ↔ (judge p.policy.stale parent child).1 = false := by
  rw [Pair.IsKept, isStale_iff hpresent]
  unfold judge
  cases isStale parent child <;> cases p.policy.stale <;> simp [hpresent]

theorem settle_judged {owner place : String} {p : Property} {parent child : Node} {v : Verdict}
    (h : settle rules owner place p parent child = .ok v) :
    (¬ Pair.IsPresent ⟨p, parent, child⟩ ∧ ∃ n, v = .settled n .zero) ∨
      Pair.IsPresent ⟨p, parent, child⟩ ∧
        (Pair.IsKept ⟨p, parent, child⟩ ∧ v = .undecided (judge p.policy.stale parent child).2 ∨
          ¬ Pair.IsKept ⟨p, parent, child⟩ ∧
            v = .settled parent (judge p.policy.stale parent child).2) := by
  obtain ⟨-, ⟨hchild, hv⟩ | ⟨hparent, hv⟩ | ⟨⟨hchild, hparent⟩, hstale, -⟩⟩ := settle_ok h
  · exact .inl ⟨fun hpresent => absurd hchild (by simp [hpresent.2]), _, hv⟩
  · exact .inl ⟨fun hpresent => absurd hparent (by simp [hpresent.1]), _, hv⟩
  · have hpresent : Pair.IsPresent ⟨p, parent, child⟩ := ⟨hparent, hchild⟩
    have hverdict := settle_present hparent hchild h
    refine .inr ⟨hpresent, ?_⟩
    rw [isKept_iff hpresent, ← hstale]
    cases hjudge : (judge p.policy.stale parent child).1 with
    | true => exact .inr ⟨by simp, by simpa [hjudge] using hverdict⟩
    | false => exact .inl ⟨rfl, by simpa [hjudge] using hverdict⟩

/-- The total of a pair counts the pair itself and what is counted at its values. -/
theorem property_count {child : Node}
    (hvalues : ∀ {place : String} {p : Property} {parent node : Node} {inner : Totals},
      parent.kind = p.kind → child.kind = p.kind → Pair.IsKept ⟨p, parent, child⟩ →
      ValuesTo rules place p parent child node inner →
      (inner.under policy : ℕ∞) = staleCount policy (MeetsInside rules.schema ⟨p, parent, child⟩))
    {owner place : String} {p : Property} {parent node : Node} {stale : Totals}
    (h : property rules owner place p parent child = .ok (node, stale)) :
    (stale.under policy : ℕ∞) =
      staleCount policy (MeetsFrom rules.schema ⟨p, parent, child⟩) := by
  have hsum := staleCount_meetsFrom policy rules.schema ⟨p, parent, child⟩
  have hdropped (hkept : ¬ Pair.IsKept ⟨p, parent, child⟩) :
      staleCount policy (MeetsInside rules.schema ⟨p, parent, child⟩) = 0 :=
    staleCount_none fun place pair hinside => absurd hinside.1 hkept
  obtain hv | ⟨first, inner, hv, hinner, rfl⟩ := property_ok h
  · obtain ⟨habsent, _, hverdict⟩ | ⟨hpresent, ⟨-, hverdict⟩ | ⟨hkept, hverdict⟩⟩ :=
      settle_judged hv
    · cases hverdict
      have hhere : staleCount policy (fun place pair => place = [] ∧ pair = ⟨p, parent, child⟩)
          = 0 := staleCount_none fun place pair hpair hstale => habsent (hpair.2 ▸ hstale.1)
      rw [hsum, hhere, hdropped fun hkept => habsent hkept.1, Totals.under_zero, Nat.cast_zero,
        add_zero]
    · cases hverdict
    · cases hverdict
      rw [hsum, hdropped hkept, add_zero, judge_count hpresent]
  · obtain ⟨-, _, hverdict⟩ | ⟨hpresent, ⟨hkept, hverdict⟩ | ⟨-, hverdict⟩⟩ := settle_judged hv
    · cases hverdict
    · cases hverdict
      have hkinds := (settle_ok hv).1
      rw [hsum, ← judge_count hpresent, ← hvalues hkinds.1 hkinds.2 hkept hinner,
        Totals.under_add, Nat.cast_add]
    · cases hverdict

/-! ## Lists of nodes -/

/-- What is counted below a child is what the merge meets there. -/
structure Counted (rules : Rules) (child : Node) : Prop where
  pair : ∀ {owner place : String} {p : Property} {parent node : Node} {stale : Totals}
    {policy : StalePolicy}, property rules owner place p parent child = .ok (node, stale) →
      (stale.under policy : ℕ∞) =
        staleCount policy (MeetsFrom rules.schema ⟨p, parent, child⟩)
  fields : ∀ {place : String} {type : Record} {parent : Node} {merged : List (String × Node)}
    {inner : Totals} {policy : StalePolicy},
      properties rules place type (parent.properties?.getD []) (child.properties?.getD []) =
        .ok (merged, inner) →
      (inner.under policy : ℕ∞) = staleCount policy (Meets rules.schema type parent child)

/-- What is met at one of the child's properties. -/
def MeetsProperty (s : Schema) (type : Record) (inherited : List (String × Node))
    (e : String × Node) (place : List Spot) (pair : Pair) : Prop :=
  ∃ above p, inherited.lookup e.1 = some above ∧ type.find? e.1 = some p ∧
    MeetsFrom s ⟨p, above, e.2⟩ place pair

theorem meets_iff {s : Schema} {type : Record} {parent child : Node} {place : List Spot}
    {pair : Pair} (hchild : child.isOrdered = true) :
    Meets s type parent child place pair ↔
      MeetsEach .property (child.properties?.getD [])
        (MeetsProperty s type (parent.properties?.getD [])) place pair := by
  constructor
  · rintro ⟨hparent, hown, hdeclared, h⟩
    rw [property?_eq_lookup] at hparent hown
    exact ⟨_, Keyed.mem_of_lookup hown, _, rfl, _, _, hparent, hdeclared, h⟩
  · rintro ⟨e, he, rest, rfl, above, p, hparent, hdeclared, h⟩
    rw [← property?_eq_lookup] at hparent
    have hown := Keyed.lookup_of_mem (properties_sorted hchild) he
    rw [← property?_eq_lookup] at hown
    exact .property hparent hown hdeclared h

theorem properties_count {place : String} {type : Record}
    {inherited own merged : List (String × Node)} {inner : Totals}
    (hown : ∀ e ∈ own, Counted rules e.2) (hnodup : (own.map Prod.fst).Nodup)
    (h : properties rules place type inherited own = .ok (merged, inner)) :
    (inner.under policy : ℕ∞) =
      staleCount policy
        (MeetsEach .property own (MeetsProperty rules.schema type inherited)) := by
  induction own generalizing merged inner with
  | nil =>
    cases h
    exact zero_count fun _ _ ⟨_, he, _⟩ => absurd he List.not_mem_nil
  | cons e rest ih =>
    rw [List.forall_mem_cons] at hown
    obtain ⟨hnew, hrest⟩ := List.nodup_cons.1 hnodup
    obtain ⟨node, first, nodes, others, hfirst, hothers, -, rfl⟩ := properties_cons_ok h
    have hhead : (first.under policy : ℕ∞) =
        staleCount policy (MeetsProperty rules.schema type inherited e) := by
      obtain ⟨parent, p, hparent, hp, hproperty⟩ | ⟨hnone, -, rfl⟩ := hfirst
      · rw [hown.1.pair hproperty]
        refine staleCount_congr fun place pair => ⟨fun hmet => ⟨_, _, hparent, hp, hmet⟩, ?_⟩
        rintro ⟨_, _, hparent', hp', hmet⟩
        obtain rfl := Option.some.inj (hparent.symm.trans hparent')
        obtain rfl := Option.some.inj (hp.symm.trans hp')
        exact hmet
      · refine zero_count ?_
        rintro _ _ ⟨_, _, hparent, hp, -⟩
        rcases hnone with hnone | hnone
        · simp [hparent] at hnone
        · simp [hp] at hnone
    rw [staleCount_cons (fun a b hab => Spot.property.inj hab) hnew, ← hhead,
      ← ih hown.2 hrest hothers, Totals.under_add, Nat.cast_add]

theorem fields_count {child parent : Node} {place : String} {type : Record}
    {merged : List (String × Node)} {inner : Totals} (hchild : child.isOrdered = true)
    (hown : ∀ e ∈ child.properties?.getD [], Counted rules e.2)
    (h : properties rules place type (parent.properties?.getD []) (child.properties?.getD []) =
      .ok (merged, inner)) :
    (inner.under policy : ℕ∞) = staleCount policy (Meets rules.schema type parent child) := by
  rw [properties_count hown (Keyed.nodup_of_sorted (properties_sorted hchild)) h]
  exact staleCount_congr fun place pair => (meets_iff hchild).symm

/-! ## Items and entries -/

/-- What is met at one of the child's items, or entries. -/
def MeetsItem (s : Schema) (p : Property) (combining : ItemPolicy) (above : List (String × Node))
    (e : String × Node) (place : List Spot) (pair : Pair) : Prop :=
  combining = .merge ∧ ∃ parent type, above.lookup e.1 = some parent ∧
    s.find? p.typeName = some type ∧ Meets s type parent e.2 place pair

theorem item_whole {place key : String} {p : Property} {combining : ItemPolicy}
    {above kept : Option Node} {child : Node} {stale : Totals}
    (hwhole : above = none ∨ combining ≠ .merge)
    (h : item rules place p combining above key child = .ok (kept, stale)) : stale = .zero := by
  cases above with
  | none => exact (Prod.mk.inj (Except.ok.inj (item_none.symm.trans h))).2.symm
  | some parent =>
    cases combining with
    | merge => simp at hwhole
    | useParent | useChild => cases child <;> exact (pure_pair_eq_ok.1 h).2.symm

theorem item_count {place : String} {p : Property} {combining : ItemPolicy}
    {above : List (String × Node)} {e : String × Node} {kept : Option Node} {stale : Totals}
    (hchild : Counted rules e.2)
    (h : item rules place p combining (above.lookup e.1) e.1 e.2 = .ok (kept, stale)) :
    (stale.under policy : ℕ∞) =
      staleCount policy (MeetsItem rules.schema p combining above e) := by
  by_cases hwhole : above.lookup e.1 = none ∨ combining ≠ .merge
  · rw [item_whole hwhole h]
    refine zero_count ?_
    rintro _ _ ⟨hmerge, _, _, hparent, -⟩
    simp [hparent, hmerge] at hwhole
  · push Not at hwhole
    obtain ⟨hsome, rfl⟩ := hwhole
    obtain ⟨parent, hparent⟩ := Option.ne_none_iff_exists'.1 hsome
    rw [hparent] at h
    obtain ⟨hpolicy, -⟩ | ⟨hpolicy, -⟩ | ⟨-, label, type, info, own, declared, merged, hcomplex,
      ⟨-, -, htype⟩, hmerged, -⟩ := item_paired h
    · cases hpolicy
    · cases hpolicy
    · have hfields : properties rules label type (parent.properties?.getD [])
          (e.2.properties?.getD []) = .ok (merged, stale) := by
        rw [hcomplex]
        exact hmerged
      rw [hchild.fields hfields]
      refine staleCount_congr fun place pair => ⟨fun hmet => ⟨rfl, _, _, hparent, htype, hmet⟩, ?_⟩
      rintro ⟨-, _, _, hparent', htype', hmet⟩
      obtain rfl := Option.some.inj (hparent.symm.trans hparent')
      obtain rfl := Option.some.inj (htype.symm.trans htype')
      exact hmet

theorem entries_count {place : String} {p : Property} {combining : ItemPolicy}
    {spot : String → Spot} (hspot : Function.Injective spot)
    {above own merged : List (String × Node)} {stale : Totals}
    (hown : ∀ e ∈ own, Counted rules e.2) (hnodup : (own.map Prod.fst).Nodup)
    (h : entries rules place p combining above own = .ok (merged, stale)) :
    (stale.under policy : ℕ∞) =
      staleCount policy (MeetsEach spot own (MeetsItem rules.schema p combining above)) := by
  induction own generalizing merged stale with
  | nil =>
    cases h
    exact zero_count fun _ _ ⟨_, he, _⟩ => absurd he List.not_mem_nil
  | cons e rest ih =>
    rw [List.forall_mem_cons] at hown
    obtain ⟨hnew, hrest⟩ := List.nodup_cons.1 hnodup
    obtain ⟨kept, first, others, more, hitem, hothers, -, rfl⟩ := entries_cons_ok h
    rw [staleCount_cons hspot hnew, ← item_count hown.1 hitem, ← ih hown.2 hrest hothers,
      Totals.under_add, Nat.cast_add]

theorem items_entries {place : String} {p : Property} {combining : ItemPolicy}
    {above keyed : List (String × Node)} {seen : List String} {merged : List Node} {stale : Totals}
    (h : items rules place p combining above seen (keyed.map Prod.fst) (keyed.map Prod.snd) =
      .ok (merged, stale)) :
    ∃ firsts nodes, entries rules place p combining above firsts = .ok (nodes, stale) ∧
      (firsts.map Prod.fst).Nodup ∧
      ∀ e, e ∈ firsts ↔ e.1 ∉ seen ∧ keyed.lookup e.1 = some e.2 := by
  induction keyed generalizing seen merged stale with
  | nil =>
    cases h
    exact ⟨[], [], rfl, .nil, by simp⟩
  | cons e rest ih =>
    obtain ⟨hmet, h⟩ | ⟨hnew, kept, first, others, more, hitem, hmore, rfl, rfl⟩ := items_cons_ok h
    · obtain ⟨firsts, nodes, hnodes, hnodup, hmem⟩ := ih h
      have hseen : e.1 ∈ seen := List.contains_iff_mem.1 hmet
      -- A key that was seen before is not among the firsts, whoever has it.
      refine ⟨firsts, nodes, hnodes, hnodup, fun a => ?_⟩
      rw [hmem, and_congr_right_iff, List.lookup_cons]
      intro ha
      have hne : (a.1 == e.1) = false := beq_false_of_ne fun hae => ha (hae ▸ hseen)
      rw [hne]
    · obtain ⟨firsts, nodes, hnodes, hnodup, hmem⟩ := ih hmore
      have hnot : e.1 ∉ seen := by simpa using hnew
      refine ⟨e :: firsts, _, bind_eq_ok.2 ⟨_, hitem, bind_eq_ok.2 ⟨_, hnodes, rfl⟩⟩, ?_,
        fun a => ?_⟩
      · refine List.nodup_cons.2 ⟨fun hfirst => ?_, hnodup⟩
        obtain ⟨a, ha, hae⟩ := List.mem_map.1 hfirst
        exact ((hmem a).1 ha).1 (hae ▸ List.mem_cons_self)
      · rw [List.mem_cons, hmem, List.lookup_cons]
        by_cases hae : a.1 = e.1
        · simp [hae, hnot, Prod.ext_iff, eq_comm]
        · have hne : (a.1 == e.1) = false := beq_false_of_ne hae
          rw [hne]
          simp [hae, Prod.ext_iff]

/-! ## Collections -/

theorem spot_injective (pair : Pair) : Function.Injective pair.spot := by
  intro key key' h
  unfold Pair.spot at h
  split at h
  · exact Spot.entry.inj h
  · exact (Spot.member.inj h).2

theorem inside_iff {s : Schema} {outer pair : Pair} {place : List Spot}
    {above firsts : List (String × Node)} (hkept : outer.IsKept) (hvalues : ¬ outer.MergesValues)
    (habove : ∀ key, above.lookup key = (outer.parent.held s (outer.spot key)).head?)
    (hfirsts : ∀ e, e ∈ firsts ↔ (outer.child.held s (outer.spot e.1)).head? = some e.2) :
    MeetsInside s outer place pair ↔
      MeetsEach outer.spot firsts
        (MeetsItem s outer.property (effectiveItemPolicy outer.property outer.parent) above)
        place pair := by
  have hitems : outer.MergesItems ↔ effectiveItemPolicy outer.property outer.parent = .merge := by
    rw [Pair.MergesItems, effectiveItemPolicy, defaultsOnly]
    cases outer.parent.definedAt.isStructural <;> simp
  constructor
  · rintro ⟨-, type, htype, ⟨hmerges, -⟩ | ⟨hmerges, key, a, b, rest, rfl, ha, hb, h⟩⟩
    · exact absurd hmerges hvalues
    · exact ⟨(key, b), (hfirsts _).2 hb, rest, rfl, hitems.1 hmerges, a, type,
        (habove key).trans ha, htype, h⟩
  · rintro ⟨e, he, rest, rfl, hmerges, a, type, ha, htype, h⟩
    exact ⟨hkept, type, htype, .inr ⟨hitems.2 hmerges, e.1, a, e.2, rest, rfl,
      (habove e.1).symm.trans ha, (hfirsts e).1 he, h⟩⟩

theorem lookup_keyItems_held {info : Info} {place : String} {p : Property} {own : List Node}
    {keyed : List (String × Node)} (h : keyItems rules place p own = .ok keyed) (key : String) :
    keyed.lookup key =
      ((Node.set info (some own)).held rules.schema (.member p key)).head? := by
  induction own generalizing keyed with
  | nil =>
    cases h
    rfl
  | cons item rest ih =>
    obtain ⟨k, keyedRest, hk, hrest, rfl⟩ := keyItems_cons h
    have hkey := itemKey_eq_ok.1 hk
    have hlater := ih hrest
    rw [held, List.head?_filter] at hlater ⊢
    rw [List.lookup_cons, List.find?_cons, hkey, Option.some_beq_some, BEq.comm (a := k),
      hlater]

theorem head?_held_entry (s : Schema) (info : Info) (own : List (String × Node)) (key : String) :
    ((Node.map info (some own)).held s (.entry key)).head? = own.lookup key := by
  rw [held]
  cases own.lookup key <;> rfl

theorem present_set {n : Node} (hkind : n.kind = .set) (hpresent : n.isAbsent = false) :
    ∃ info own, n = .set info (some own) := by
  cases n with
  | set info own =>
    cases own with
    | none => cases hpresent
    | some own => exact ⟨info, own, rfl⟩
  | simple | complex | list | map => cases hkind

theorem present_map {n : Node} (hkind : n.kind = .map) (hpresent : n.isAbsent = false) :
    ∃ info own, n = .map info (some own) := by
  cases n with
  | map info own =>
    cases own with
    | none => cases hpresent
    | some own => exact ⟨info, own, rfl⟩
  | simple | complex | list | set => cases hkind

theorem set_count {info : Info} {own : List Node} (hown : ∀ n ∈ own, Counted rules n)
    {place : String} {p : Property} {parent node : Node} {inner : Totals}
    (hparent : parent.kind = p.kind) (hset : p.kind = .set)
    (hkept : Pair.IsKept ⟨p, parent, .set info (some own)⟩)
    (h : ValuesTo rules place p parent (.set info (some own)) node inner) :
    (inner.under policy : ℕ∞) =
      staleCount policy (MeetsInside rules.schema ⟨p, parent, .set info (some own)⟩) := by
  obtain ⟨i, inherited, rfl⟩ := present_set (hparent.trans hset) hkept.1.1
  obtain ⟨above, keyed, merged, habove, hkeyed, hmerged, -⟩ := h
  rw [← keyItems_items hkeyed] at hmerged
  obtain ⟨firsts, nodes, hnodes, hnodup, hfirsts⟩ := items_entries hmerged
  have hspot (child : Node) (key : String) :
      Pair.spot ⟨p, .set i (some inherited), child⟩ key = .member p key := by
    simp [Pair.spot, hset]
  have hcounted : ∀ e ∈ firsts, Counted rules e.2 := fun e he =>
    hown _ (keyItems_key hkeyed _ (Keyed.mem_of_lookup ((hfirsts e).1 he).2)).1
  rw [entries_count (spot_injective ⟨p, .set i (some inherited), .set info (some own)⟩) hcounted
    hnodup hnodes]
  refine staleCount_congr fun place pair => (inside_iff hkept ?_ (fun key => ?_) fun e => ?_).symm
  · exact fun hmerges => absurd hmerges.1 (by simp [hset])
  · rw [hspot]
    exact lookup_keyItems_held habove key
  · rw [hspot, hfirsts, ← lookup_keyItems_held hkeyed e.1]
    simp

theorem map_count {info : Info} {own : List (String × Node)}
    (hordered : (Node.map info (some own)).isOrdered = true) (hown : ∀ e ∈ own, Counted rules e.2)
    {place : String} {p : Property} {parent node : Node} {inner : Totals}
    (hparent : parent.kind = p.kind) (hmap : p.kind = .map)
    (hkept : Pair.IsKept ⟨p, parent, .map info (some own)⟩)
    (h : ValuesTo rules place p parent (.map info (some own)) node inner) :
    (inner.under policy : ℕ∞) =
      staleCount policy (MeetsInside rules.schema ⟨p, parent, .map info (some own)⟩) := by
  obtain ⟨i, inherited, rfl⟩ := present_map (hparent.trans hmap) hkept.1.1
  obtain ⟨merged, -, -, hmerged, -⟩ := h
  obtain ⟨hsorted, -⟩ := map_ordered_iff.1 hordered
  have hspot (child : Node) (key : String) :
      Pair.spot ⟨p, .map i (some inherited), child⟩ key = .entry key := by
    simp [Pair.spot, hmap]
  rw [entries_count (spot_injective ⟨p, .map i (some inherited), .map info (some own)⟩) hown
    (Keyed.nodup_of_sorted hsorted) hmerged]
  refine staleCount_congr fun place pair => (inside_iff hkept ?_ (fun key => ?_) fun e => ?_).symm
  · exact fun hmerges => absurd hmerges.1 (by simp [hmap])
  · rw [hspot, head?_held_entry]
    rfl
  · rw [hspot, head?_held_entry]
    exact ⟨fun he => Keyed.lookup_of_mem hsorted he, Keyed.mem_of_lookup⟩

/-! ## Complex values -/

theorem effectivePolicy_merge {p : Property} {parent : Node} (hkind : p.kind = .complex)
    (hmono : p.polymorphic = false) : effectivePolicy p parent = .merge ↔
      parent.definedAt.isStructural = true ∨ p.policy.value = .merge := by
  unfold effectivePolicy defaultsOnly
  split <;> simp_all [ValuePolicy.standard]

theorem chooseComplex_merges {place : String} {p : Property} {parent : Node} {choice : Choice}
    (hkind : p.kind = .complex) (h : chooseComplex rules place p parent = .ok choice)
    (child : Node) : Pair.MergesValues ⟨p, parent, child⟩ ↔ ∃ type, choice = .combine type := by
  constructor
  · rintro ⟨-, hmono, hmerges⟩
    replace hmono : p.polymorphic = false := hmono
    rw [chooseComplex, (effectivePolicy_merge hkind hmono).2 hmerges] at h
    simp only [hmono, Bool.false_eq_true, if_false] at h
    obtain ⟨type, -, rfl⟩ := map_eq_ok.1 h
    exact ⟨type, rfl⟩
  · rintro ⟨type, rfl⟩
    obtain ⟨hmono, -⟩ := chooseComplex_combine h
    refine ⟨hkind, hmono, (effectivePolicy_merge hkind hmono).1 ?_⟩
    unfold chooseComplex at h
    cases hpolicy : effectivePolicy p parent <;> simp_all [Error.misuse]

theorem value_count {info : Info} {own : List (String × Node)} {declared : List String}
    (hfields : ∀ {place : String} {type : Record} {parent : Node} {merged : List (String × Node)}
      {inner : Totals}, properties rules place type (parent.properties?.getD []) own =
        .ok (merged, inner) →
      (inner.under policy : ℕ∞) =
        staleCount policy (Meets rules.schema type parent (.complex info own declared)))
    {place : String} {p : Property} {parent node : Node} {inner : Totals}
    (hkind : p.kind = .complex) (hkept : Pair.IsKept ⟨p, parent, .complex info own declared⟩)
    (h : ValuesTo rules place p parent (.complex info own declared) node inner) :
    (inner.under policy : ℕ∞) =
      staleCount policy (MeetsInside rules.schema ⟨p, parent, .complex info own declared⟩) := by
  have hheld (key : String) : (Node.complex info own declared).held rules.schema
      (Pair.spot ⟨p, parent, .complex info own declared⟩ key) = [] :=
    held_spot (by simp [Node.kind]) (by simp [Node.kind])
  -- Where a side is taken whole the merge does not look inside, so no pair is met there.
  have hnothing {choice : Choice} (hchoice : chooseComplex rules place p parent = .ok choice)
      (hwhole : ∀ type, choice ≠ .combine type) :
      (Totals.zero.under policy : ℕ∞) =
        staleCount policy (MeetsInside rules.schema ⟨p, parent, .complex info own declared⟩) :=
    zero_count fun _ _ hmet => by
      obtain ⟨-, _, -, hmerges, -⟩ := (inside_value_iff hheld).1 hmet
      obtain ⟨type, htype⟩ := (chooseComplex_merges hkind hchoice _).1 hmerges
      exact absurd htype (hwhole type)
  obtain ⟨hchoice, -, rfl⟩ | ⟨hchoice, -, rfl⟩ | ⟨type, merged, hchoice, hmerged, -⟩ := h
  · exact hnothing hchoice (by simp)
  · exact hnothing hchoice (by simp)
  · rw [hfields hmerged]
    have hmerges := (chooseComplex_merges hkind hchoice (.complex info own declared)).2 ⟨type, rfl⟩
    obtain ⟨-, htype⟩ := chooseComplex_combine hchoice
    refine staleCount_congr fun place pair => ?_
    rw [inside_value_iff hheld]
    refine ⟨fun hmet => ⟨hkept, type, htype, hmerges, hmet⟩, ?_⟩
    rintro ⟨-, _, htype', -, hmet⟩
    obtain rfl := Option.some.inj (htype.symm.trans htype')
    exact hmet

/-! ## All nodes -/

theorem counted_of_children {child : Node} (hordered : child.isOrdered = true)
    (hproperties : ∀ e ∈ child.properties?.getD [], Counted rules e.2)
    (hitems : ∀ n ∈ child.items?.getD [], Counted rules n)
    (hentries : ∀ e ∈ child.entries?.getD [], Counted rules e.2) : Counted rules child := by
  have hfields {place : String} {type : Record} {parent : Node} {merged : List (String × Node)}
      {inner : Totals} {policy : StalePolicy} (h : properties rules place type
        (parent.properties?.getD []) (child.properties?.getD []) = .ok (merged, inner)) :
      (inner.under policy : ℕ∞) = staleCount policy (Meets rules.schema type parent child) :=
    fields_count hordered hproperties h
  -- Texts and lists hold no pairs.
  have hplain {p : Property} {parent : Node} {policy : StalePolicy} (hkind : child.kind = p.kind)
      (hcomplex : child.kind ≠ .complex) (hset : child.kind ≠ .set) (hmap : child.kind ≠ .map) :
      (Totals.zero.under policy : ℕ∞) =
        staleCount policy (MeetsInside rules.schema ⟨p, parent, child⟩) :=
    zero_count fun place pair hmet => by
      obtain ⟨-, _, -, hmerges, -⟩ := (inside_value_iff fun key => held_spot hset hmap).1 hmet
      exact absurd (hkind.trans hmerges.1) hcomplex
  refine ⟨property_count fun hparent hkind hkept h => ?_, hfields⟩
  cases child with
  | simple info text =>
    rw [h.2]
    exact hplain hkind (by simp [Node.kind]) (by simp [Node.kind]) (by simp [Node.kind])
  | list info own =>
    rw [h.2]
    exact hplain hkind (by simp [Node.kind]) (by simp [Node.kind]) (by simp [Node.kind])
  | complex info own declared => exact value_count hfields hkind.symm hkept h
  | set info own =>
    cases own with
    | none => cases hkept.1.2
    | some own => exact set_count hitems hparent hkind.symm hkept h
  | map info own =>
    cases own with
    | none => cases hkept.1.2
    | some own => exact map_count hordered hentries hparent hkind.symm hkept h

theorem counted {child : Node} (hordered : child.isOrdered = true) : Counted rules child := by
  induction child using tree_induction with
  | simple | absentList | absentSet | absentMap =>
    exact counted_of_children hordered (by simp [properties?]) (by simp [items?])
      (by simp [entries?])
  | complex info own declared ih =>
    obtain ⟨-, hown⟩ := complex_ordered_iff.1 hordered
    exact counted_of_children hordered (fun e he => ih e he (hown e he)) (by simp [items?])
      (by simp [entries?])
  | list info own ih =>
    exact counted_of_children hordered (by simp [properties?])
      (fun n hn => ih n hn (items_ordered hordered n hn)) (by simp [entries?])
  | set info own ih =>
    exact counted_of_children hordered (by simp [properties?])
      (fun n hn => ih n hn (items_ordered hordered n hn)) (by simp [entries?])
  | map info own ih =>
    obtain ⟨-, hown⟩ := map_ordered_iff.1 hordered
    exact counted_of_children hordered (by simp [properties?]) (by simp [items?])
      fun e he => ih e he (hown e he)

theorem complex_count {place : String} {type : Record} {parent child node : Node} {stale : Totals}
    (hordered : child.isOrdered = true)
    (h : complex rules place type parent child = .ok (node, stale)) :
    (stale.under policy : ℕ∞) = staleCount policy (Meets rules.schema type parent child) := by
  obtain ⟨-, info, own, declared, merged, rfl, hmerged, -⟩ := complex_ok h
  exact (counted hordered).fields hmerged

/-! ## Levels -/

/-- The pairs that are met when the level at this index is merged into what was merged before. -/
def MeetsAt (rules : Rules) (type : Record) (all : List (Option Node)) (i : Nat)
    (place : List Spot) (pair : Pair) : Prop :=
  ∃ parent before child, levels rules type (all.take i) = .ok (some parent, before) ∧
    all[i]? = some (some child) ∧ Meets rules.schema type parent child place pair

variable {type : Record}

theorem meetsAt_append {first : List (Option Node)} {i : Nat} (hi : i < first.length)
    (rest : List (Option Node)) :
    MeetsAt rules type (first ++ rest) i = MeetsAt rules type first i := by
  unfold MeetsAt
  rw [List.take_append_of_le_length hi.le, List.getElem?_append_left hi]

theorem step_count {first : List (Option Node)} {level upper node : Option Node}
    {above below : Totals} (hordered : ∀ n, level = some n → n.isOrdered = true)
    (habove : levels rules type first = .ok (upper, above))
    (h : levelsFrom rules type upper [level] = .ok (node, below)) :
    (below.under policy : ℕ∞) =
      staleCount policy (MeetsAt rules type (first ++ [level]) first.length) := by
  have hmeets (place : List Spot) (pair : Pair) :
      MeetsAt rules type (first ++ [level]) first.length place pair ↔
        ∃ parent child, upper = some parent ∧ level = some child ∧
          Meets rules.schema type parent child place pair := by
    unfold MeetsAt
    simp [habove]
  match upper, level with
  | _, none =>
    cases h
    refine zero_count fun place pair hmet => ?_
    obtain ⟨_, _, -, hlevel, -⟩ := (hmeets place pair).1 hmet
    cases hlevel
  | none, some child =>
    cases h
    refine zero_count fun place pair hmet => ?_
    obtain ⟨_, _, hupper, -⟩ := (hmeets place pair).1 hmet
    cases hupper
  | some parent, some child =>
    obtain ⟨⟨merged, first⟩, hmerged, h⟩ := bind_eq_ok.1 h
    cases h
    rw [Totals.add_zero, complex_count (hordered child rfl) hmerged]
    refine staleCount_congr fun place pair => ?_
    rw [hmeets]
    simp

/-- The totals are the sums over all steps. -/
theorem levels_count {all : List (Option Node)} {node : Option Node} {stale : Totals}
    (hordered : ∀ n, some n ∈ all → n.isOrdered = true)
    (h : levels rules type all = .ok (node, stale)) (policy : StalePolicy) :
    (stale.under policy : ℕ∞) =
      ∑ i ∈ Finset.range all.length, staleCount policy (MeetsAt rules type all i) := by
  -- A step meets what the levels before it were merged to, so the last level comes apart first.
  induction all using List.reverseRecOn generalizing node stale with
  | nil =>
    cases h
    simp
  | append_singleton first level ih =>
    rw [levels, levelsFrom_append] at h
    obtain ⟨⟨upper, above⟩, habove, h⟩ := bind_eq_ok.1 h
    obtain ⟨⟨_, below⟩, hbelow, h⟩ := bind_eq_ok.1 h
    obtain ⟨rfl, rfl⟩ := pure_pair_eq_ok.1 h
    have hfirst := ih (fun n hn => hordered n (List.mem_append_left _ hn)) habove
    have hstep : (below.under policy : ℕ∞) = _ :=
      step_count (fun n hn => hordered n (by simp [hn])) habove hbelow
    rw [List.length_append, List.length_singleton, Finset.sum_range_succ, ← hstep,
      Totals.under_add, Nat.cast_add, hfirst]
    congr 1
    refine Finset.sum_congr rfl fun i hi => ?_
    rw [meetsAt_append (Finset.mem_range.1 hi)]

/-- The totals are the numbers of the stale pairs of all steps. -/
structure CountsStale (rules : Rules) (type : Record) (all : List (Option Node))
    (stale : Totals) : Prop where
  merged : (stale.merged : ℕ∞) =
    ∑ i ∈ Finset.range all.length, staleCount .merge (MeetsAt rules type all i)
  discarded : (stale.discarded : ℕ∞) =
    ∑ i ∈ Finset.range all.length, staleCount .useParent (MeetsAt rules type all i)

/-- Some pair that a step meets is stale. -/
def MeetsStale (rules : Rules) (type : Record) (all : List (Option Node)) : Prop :=
  ∃ i place pair, MeetsAt rules type all i place pair ∧ pair.IsStale

theorem any_iff_meetsStale {all : List (Option Node)} {node : Option Node} {stale : Totals}
    (hordered : ∀ n, some n ∈ all → n.isOrdered = true)
    (h : levels rules type all = .ok (node, stale)) :
    stale.any = true ↔ MeetsStale rules type all := by
  have hany : stale.any = true ↔ ∃ policy, stale.under policy ≠ 0 := by
    rw [Totals.any_iff]
    refine ⟨fun hsome => ?_, fun ⟨policy, hpolicy⟩ => ?_⟩
    · by_cases hmerged : stale.merged = 0
      · exact ⟨.useParent, by rw [Totals.under]; omega⟩
      · exact ⟨.merge, hmerged⟩
    · cases policy <;> rw [Totals.under] at hpolicy <;> omega
  rw [hany]
  constructor
  · rintro ⟨policy, hpolicy⟩
    by_contra hnone
    have hcount := levels_count hordered h policy
    rw [Finset.sum_eq_zero fun i _ => staleCount_none fun place pair hmet hstale =>
      hnone ⟨i, place, pair, hmet, hstale⟩] at hcount
    exact hpolicy (by exact_mod_cast hcount)
  · rintro ⟨i, place, pair, hmet, hstale⟩
    refine ⟨pair.property.policy.stale, fun hzero => ?_⟩
    have hcount := levels_count hordered h pair.property.policy.stale
    rw [hzero, Nat.cast_zero, eq_comm, Finset.sum_eq_zero_iff] at hcount
    have hi : i ∈ Finset.range all.length := by
      obtain ⟨_, _, _, -, hlevel, -⟩ := hmet
      exact Finset.mem_range.2 (List.getElem?_eq_some_iff.1 hlevel).1
    exact staleCount_eq_zero.1 (hcount i hi) place pair hmet hstale rfl

/-! ## What observers are told -/

/-- What an observer is told of a merge: nothing if it fails. -/
def told (path : Scope.Path) : Except Error (Option Node × Totals) → List Report
  | .error _ => []
  | .ok (_, stale) => (report? path stale).toList

/-- An observer is told of nothing if the merge fails or meets no stale pair, else once and with the
numbers of stale pairs. -/
theorem told_exact (path : Scope.Path) {all : List (Option Node)}
    (hordered : ∀ n, some n ∈ all → n.isOrdered = true) :
    (∀ e, levels rules type all = .error e → told path (levels rules type all) = []) ∧
      ∀ node stale, levels rules type all = .ok (node, stale) →
        CountsStale rules type all stale ∧
          (MeetsStale rules type all →
            told path (levels rules type all) = [⟨path, stale⟩]) ∧
          (¬ MeetsStale rules type all → told path (levels rules type all) = []) := by
  refine ⟨fun e he => by rw [he]; rfl, fun node stale h =>
    ⟨⟨?_, ?_⟩, fun hmeets => ?_, fun hnone => ?_⟩⟩
  · exact levels_count hordered h .merge
  · exact levels_count hordered h .useParent
  · rw [h, told, report?, if_pos ((any_iff_meetsStale hordered h).2 hmeets)]
    rfl
  · rw [h, told, report?, if_neg (mt (any_iff_meetsStale hordered h).1 hnone)]
    rfl

end Merge

namespace Service

/-- The observers of a service are told what its merges are. -/
theorem load_told {rules : Rules} {s s' : Service} {path : Scope.Path} {typeName : String}
    {type : Schema.Record} {all : List (Option Node)}
    (htype : rules.rootType path typeName = .ok type)
    (hlevels : s.readLevels path.ancestry = (.ok all, s')) :
    (s.load rules path typeName).report.toList =
      Merge.told path (Merge.levels rules.toRules type all) := by
  simp only [load, htype, hlevels, resolve, bind, Except.bind]
  cases Merge.levels rules.toRules type all <;> rfl

end Service

/-! ## A small example

The lead of a team stays what it was unless it was chosen for the present team, and nothing of the
lead that is dropped counts.
-/

namespace Sample

open Merge Schema

def team : Record :=
  { name := "Team",
    properties := [.simple "size" "int", (Property.complex "lead" "Team").onStale .useParent] }

def teams : Merge.Rules := ⟨.insert .empty team, .standard⟩

def teamAt (place : Scope.Path) (own : List (String × Node)) : Node :=
  .complex { definedAt := place, typeName := "Team" } own (own.map Prod.fst)

def sizeAt (place : Scope.Path) (text : String) : String × Node :=
  ("size", .simple { definedAt := place, typeName := "int" } (some text))

def teamLevels : List (Option Node) :=
  [some (teamAt global [("lead", teamAt global [sizeAt global "1"]), sizeAt global "8"]), none,
    some (teamAt alice [("lead", teamAt alice [sizeAt alice "2"]), sizeAt alice "9"])]

theorem team_told :
    (∀ n, some n ∈ teamLevels → n.isOrdered = true) ∧
      CountsStale teams team teamLevels ⟨1, 1⟩ ∧
      told alice (levels teams team teamLevels) = [⟨alice, ⟨1, 1⟩⟩] := by
  have hall : ∀ level ∈ teamLevels, level.all Node.isOrdered = true := by decide
  have hordered : ∀ n, some n ∈ teamLevels → n.isOrdered = true := fun n hn => hall (some n) hn
  have h : levels teams team teamLevels = .ok (some _, ⟨1, 1⟩) := rfl
  have hmeets : MeetsStale teams team teamLevels :=
    ⟨2, [.property "size"], _, ⟨_, _, _, rfl, rfl, .property rfl rfl rfl .here⟩, ⟨rfl, rfl⟩,
      .inl (by decide)⟩
  obtain ⟨hcounts, htold, -⟩ := (told_exact alice hordered).2 _ _ h
  exact ⟨hordered, hcounts, htold hmeets⟩

end Sample

end ScopedConfig
