import ScopedConfig.Proofs.MergedSet
import ScopedConfig.Proofs.StalePairs

/-!
# Defaults

What the class and the default scope set is only there for what a child leaves open. A child that is
merged with nothing but such nodes stays in the result, whatever the properties declare for values
and items. Entries that it alone has stay where entries may be added.
-/

namespace ScopedConfig

namespace Merge

open Schema Node ScopedConfig.Except

/-! ## What survives -/

/-- Every node was defined at the class or as a default. -/
def IsDefault (s : Schema) (root : Node) : Prop :=
  ∀ place n, Stands s root place n → n.definedAt.isStructural = true

/-- The node is the entry, or the entry with more properties. -/
def Retains (entry n : Node) : Prop :=
  n = entry ∨ (entry.kind = .complex ∧ n.kind = .complex ∧ n.info = entry.info ∧
    ∀ name value, entry.property? name = some value → n.property? name = some value)

/-- The child's entry with this key is found in the merged set or map. An item of a set that was
completed from an item whose identity is a complex node may have another key than before. -/
def KeepsEntry (s : Schema) (outer : Pair) (key : String) (entry node : Node) : Prop :=
  ∃ n, Retains entry n ∧ (node.Holds s (outer.spot key) n ∨ n ∈ node.items?.getD [] ∧
    ∃ above, (outer.parent.held s (outer.spot key)).head? = some above ∧
      KeyedByNode s outer.property above key)

/-- The child's node is found in the result of its merge with the parent's: as it is, or with all
that it consists of. -/
inductive Survives (s : Schema) : Option Property → Option Node → Node → Node → Prop where
  | whole {p : Option Property} {parent : Option Node} {child : Node} : Survives s p parent child child
  | absent {p : Option Property} {parent : Option Node} {child node : Node}
    (h : child.isAbsent = true) : Survives s p parent child node
  | complex {p : Property} {type : Record} {parent child node : Node}
    (hcomplex : child.kind = .complex) (hmono : p.polymorphic = false)
    (htype : s.find? p.typeName = some type)
    (hthere : ∀ name below, child.property? name = some below → (node.property? name).isSome)
    (h : ∀ name below n, child.property? name = some below → node.property? name = some n →
      Survives s (type.find? name) (parent.property? name) below n) :
    Survives s (some p) (some parent) child node
  | entries {outer : Pair} {node : Node}
    (hkind : outer.property.kind = .set ∨ outer.property.kind = .map)
    (hchild : outer.child.kind = outer.property.kind)
    (h : ∀ key entry, (outer.child.held s (outer.spot key)).head? = some entry →
      outer.property.policy.entryAdded = .add ∨
        (outer.parent.held s (outer.spot key)).head?.isSome = true →
      KeepsEntry s outer key entry node) :
    Survives s (some outer.property) (some outer.parent) outer.child node

variable {rules : Rules} {s : Schema}

/-! ## Nodes of defaults -/

theorem Stands.beneath {root child n : Node} {spot : Spot} {place : List Spot}
    (hchild : root.Holds s spot child) (h : Stands s child place n) :
    Stands s root (place ++ [spot]) n := by
  induction h with
  | root => exact .held .root hchild
  | held _ hheld ih => exact .held ih hheld

theorem IsDefault.structural {n : Node} (h : IsDefault s n) : n.definedAt.isStructural = true :=
  h [] n .root

theorem IsDefault.property? {n child : Node} {name : String} (h : IsDefault s n)
    (hchild : n.property? name = some child) : IsDefault s child :=
  fun _ m hm => h _ m (hm.beneath (.property hchild))

theorem effectivePolicy_structural {p : Property} {parent : Node}
    (h : parent.definedAt.isStructural = true) :
    effectivePolicy p parent = .standard p.kind p.polymorphic := by
  rw [effectivePolicy, defaultsOnly, if_pos h]

theorem effectiveItemPolicy_structural {p : Property} {parent : Node}
    (h : parent.definedAt.isStructural = true) : effectiveItemPolicy p parent = .useChild := by
  rw [effectiveItemPolicy, defaultsOnly, if_pos h]

/-! ## Entries -/

theorem backfill_retains (parent child : Node) : Retains child (backfill parent child) := by
  by_cases hcomplex : child.kind = .complex
  · exact .inr ⟨hcomplex, (kind_backfill parent child).trans hcomplex, info_backfill parent child,
      fun name value => property?_backfill parent⟩
  · exact .inl (backfill_of_kind hcomplex)

theorem item_not_lost {place key : String} {p : Property} {above kept : Option Node} {child : Node}
    {stale : Totals} (hstays : p.policy.entryAdded = .add ∨ above.isSome = true)
    (h : item rules place p .useChild above key child = .ok (kept, stale)) :
    above = none ∧ kept = some child ∨
      ∃ parent, above = some parent ∧ kept = some (backfill parent child) := by
  cases above with
  | none =>
    obtain hadd | hsome := hstays
    · exact item_useChild hadd h
    · cases hsome
  | some parent =>
    obtain ⟨hpolicy, -⟩ | ⟨-, hkept⟩ | ⟨hpolicy, -⟩ := item_paired h
    · cases hpolicy
    · exact .inr ⟨parent, rfl, hkept⟩
    · cases hpolicy

/-- The first item of a key stays, and so does the key if it is not told apart by a node that the
parent's item has. -/
theorem set_keeps {place : String} {p : Property} {parent : Node} {info : Info} {own : List Node}
    {node : Node} {inner : Totals} (hset : p.kind = .set) (hparent : parent.kind = p.kind)
    (hpresent : parent.isAbsent = false) (hdefaults : IsDefault rules.schema parent)
    (h : ValuesTo rules place p parent (.set info (some own)) node inner) {key : String}
    {entry : Node} (hentry : ((Node.set info (some own)).held rules.schema
      (Pair.spot ⟨p, parent, .set info (some own)⟩ key)).head? = some entry)
    (hstays : p.policy.entryAdded = .add ∨
      (parent.held rules.schema (Pair.spot ⟨p, parent, .set info (some own)⟩ key)).head?.isSome) :
    KeepsEntry rules.schema ⟨p, parent, .set info (some own)⟩ key entry node := by
  obtain ⟨i, inherited, rfl⟩ := present_set (hparent.trans hset) hpresent
  obtain ⟨above, keyed, merged, habove, hkeyed, hmerged, rfl⟩ := h
  replace habove : keyItems rules place p inherited = .ok above := habove
  have hspot : Pair.spot ⟨p, .set i (some inherited), .set info (some own)⟩ key = .member p key := by
    simp [Pair.spot, hset]
  rw [hspot, ← lookup_keyItems_held hkeyed] at hentry
  rw [hspot, ← lookup_keyItems_held habove] at hstays
  rw [← keyItems_items hkeyed, effectiveItemPolicy_structural hdefaults.structural] at hmerged
  have hkey := (keyItems_key hkeyed _ (Keyed.mem_of_lookup hentry)).2
  obtain ⟨kept, stale, hitem, hmem⟩ := items_first (by simp) hentry hmerged
  obtain ⟨-, rfl⟩ | ⟨a, ha, rfl⟩ := item_not_lost hstays hitem
  · have hown := List.mem_append_left ((survivors p above (keyed.map Prod.fst)).map Prod.snd)
      (hmem entry rfl)
    refine ⟨entry, .inl rfl, .inl ?_⟩
    rw [hspot]
    exact .member hown (itemKey_eq_ok.2 (itemKey_eq_ok.1 hkey))
  · have hown := List.mem_append_left ((survivors p above (keyed.map Prod.fst)).map Prod.snd)
      (hmem _ rfl)
    have hitems := keyItems_key habove _ (Keyed.mem_of_lookup ha)
    have hkind := keyItems_kind hkeyed entry (keyItems_key hkeyed _ (Keyed.mem_of_lookup hentry)).1
    refine ⟨_, backfill_retains a entry, ?_⟩
    obtain hsame | hnode := itemKey_backfill hkind hitems.2 hkey
    · left
      rw [hspot]
      exact .member hown (itemKey_eq_ok.2 (itemKey_eq_ok.1 hsame))
    · refine .inr ⟨hown, a, ?_, hnode⟩
      rw [hspot]
      exact (lookup_keyItems_held habove key).symm.trans ha

theorem map_keeps {place : String} {p : Property} {parent : Node} {info : Info}
    {own : List (String × Node)} {node : Node} {inner : Totals} (hmap : p.kind = .map)
    (hparent : parent.kind = p.kind) (hpresent : parent.isAbsent = false)
    (hdefaults : IsDefault rules.schema parent)
    (h : ValuesTo rules place p parent (.map info (some own)) node inner) {key : String}
    {entry : Node} (hentry : ((Node.map info (some own)).held rules.schema
      (Pair.spot ⟨p, parent, .map info (some own)⟩ key)).head? = some entry)
    (hstays : p.policy.entryAdded = .add ∨
      (parent.held rules.schema (Pair.spot ⟨p, parent, .map info (some own)⟩ key)).head?.isSome) :
    KeepsEntry rules.schema ⟨p, parent, .map info (some own)⟩ key entry node := by
  obtain ⟨i, above, rfl⟩ := present_map (hparent.trans hmap) hpresent
  obtain ⟨merged, -, -, hmerged, rfl⟩ := h
  have hspot : Pair.spot ⟨p, .map i (some above), .map info (some own)⟩ key = .entry key := by
    simp [Pair.spot, hmap]
  rw [hspot, head?_held_entry] at hentry hstays
  rw [effectiveItemPolicy_structural hdefaults.structural] at hmerged
  obtain ⟨kept, stale, hitem, hlookup⟩ := entries_lookup hentry hmerged
  rw [KeepsEntry, hspot]
  obtain ⟨-, rfl⟩ | ⟨a, -, rfl⟩ := item_not_lost hstays hitem
  · exact ⟨entry, .inl rfl, .inl (.entry (Keyed.lookup_fillFrom_of_some _ (hlookup entry rfl)))⟩
  · exact ⟨_, backfill_retains a entry,
      .inl (.entry (Keyed.lookup_fillFrom_of_some _ (hlookup _ rfl)))⟩

/-! ## All nodes -/

section
variable (rules : Rules)

/-- The child survives every merge with defaults that does not drop any of it as stale. -/
def Overrides (child : Node) : Prop :=
  ∀ {owner place : String} {p : Property} {parent node : Node} {stale : Totals},
    IsDefault rules.schema parent →
    (∀ place pair, MeetsFrom rules.schema ⟨p, parent, child⟩ place pair →
      ¬ (pair.IsStale ∧ pair.property.policy.stale = .useParent)) →
    property rules owner place p parent child = .ok (node, stale) →
    Survives rules.schema (some p) (some parent) child node

end

theorem complex_survives {place : String} {p : Property} {parent node : Node} {info : Info}
    {own : List (String × Node)} {declared : List String} {inner : Totals}
    (hown : ∀ e ∈ own, Overrides rules e.2) (hkind : p.kind = .complex)
    (hdefaults : IsDefault rules.schema parent)
    (hkept : Pair.IsKept ⟨p, parent, .complex info own declared⟩)
    (hfresh : ∀ place pair,
      MeetsFrom rules.schema ⟨p, parent, .complex info own declared⟩ place pair →
      ¬ (pair.IsStale ∧ pair.property.policy.stale = .useParent))
    (h : ValuesTo rules place p parent (.complex info own declared) node inner) :
    Survives rules.schema (some p) (some parent) (.complex info own declared) node := by
  cases hmono : p.polymorphic with
  | true =>
    have hchild : chooseComplex rules place p parent = .ok .child := by
      rw [chooseComplex, effectivePolicy_structural hdefaults.structural, hkind, hmono]
      rfl
    obtain ⟨-, rfl, -⟩ | ⟨hchoice, -⟩ | ⟨type, merged, hchoice, -⟩ := h
    · exact .whole
    · cases hchild.symm.trans hchoice
    · cases hchild.symm.trans hchoice
  | false =>
    -- Above defaults a value of one fixed type is never taken whole.
    have hmerges : Pair.MergesValues ⟨p, parent, .complex info own declared⟩ :=
      ⟨hkind, hmono, .inl hdefaults.structural⟩
    have hcombine {choice : Choice} (hchoice : chooseComplex rules place p parent = .ok choice) :
        ∃ type, choice = .combine type := (chooseComplex_merges hkind hchoice _).1 hmerges
    obtain ⟨hchoice, -⟩ | ⟨hchoice, -⟩ | ⟨type, merged, hchoice, hmerged, rfl⟩ := h
    · obtain ⟨_, hchoice⟩ := hcombine hchoice
      cases hchoice
    · obtain ⟨_, hchoice⟩ := hcombine hchoice
      cases hchoice
    · obtain ⟨-, htype⟩ := chooseComplex_combine hchoice
      have hresult {name : String} {n : Node} (hn : merged.lookup name = some n) :
          (joined info declared parent merged).property? name = some n :=
        Keyed.lookup_fillFrom_of_some _ hn
      refine .complex rfl hmono htype (fun name below hbelow => ?_) fun name below n hbelow hn => ?_
      · obtain ⟨hnone, -⟩ | ⟨_, n, -, hn, -⟩ := properties_lookup name hmerged
        · cases hnone.symm.trans hbelow
        · rw [hresult hn]
          rfl
      · obtain ⟨hnone, -⟩ | ⟨c, m, hc, hm, hcases⟩ := properties_lookup name hmerged
        · cases hnone.symm.trans hbelow
        · obtain rfl := Option.some.inj (hc.symm.trans hbelow)
          obtain rfl := Option.some.inj ((hresult hm).symm.trans hn)
          obtain ⟨-, rfl⟩ | ⟨above, q, first, habove, hq, hproperty, -⟩ := hcases
          · exact .whole
          · rw [← property?_eq_lookup] at habove
            rw [hq, habove]
            refine hown (name, c) (Keyed.mem_of_lookup hc) (hdefaults.property? habove)
              (fun place pair hmet => ?_) hproperty
            exact hfresh _ pair (.value hkept hmerges htype (.property habove hc hq hmet))

theorem child_of_absent {owner place : String} {p : Property} {parent child node : Node}
    {stale : Totals} (hchild : child.isAbsent = false) (hparent : parent.isAbsent = true)
    (h : property rules owner place p parent child = .ok (node, stale)) : node = child := by
  have habsent : ¬ (child.isAbsent = false ∧ parent.isAbsent = false) := by simp [hparent]
  obtain hv | ⟨first, inner, hv, -⟩ := property_ok h
  · obtain ⟨-, ⟨hthere, -⟩ | ⟨-, hverdict⟩ | ⟨hboth, -⟩⟩ := settle_ok hv
    · simp [hchild] at hthere
    · cases hverdict
      rfl
    · exact absurd hboth habsent
  · obtain ⟨-, ⟨-, hverdict⟩ | ⟨-, hverdict⟩ | ⟨hboth, -⟩⟩ := settle_ok hv
    · cases hverdict
    · cases hverdict
    · exact absurd hboth habsent

theorem overrides_of_children {child : Node}
    (hown : ∀ e ∈ child.properties?.getD [], Overrides rules e.2) : Overrides rules child := by
  intro owner place p parent node stale hdefaults hfresh h
  cases hchild : child.isAbsent with
  | true => exact .absent hchild
  | false =>
    cases hparent : parent.isAbsent with
    | true =>
      obtain rfl := child_of_absent hchild hparent h
      exact .whole
    | false =>
      have hpresent : Pair.IsPresent ⟨p, parent, child⟩ := ⟨hparent, hchild⟩
      have hkept : Pair.IsKept ⟨p, parent, child⟩ := ⟨hpresent, hfresh [] _ .here⟩
      obtain ⟨-, ⟨hparentKind, hchildKind⟩, inner, hvalues⟩ :=
        values_of_kept hparent hchild ((isKept_iff hpresent).1 hkept) h
      have hpolicy := effectivePolicy_structural (p := p) hdefaults.structural
      cases child with
      | simple info text =>
        rw [← hchildKind] at hpolicy
        obtain ⟨htext, -⟩ := hvalues
        rw [hpolicy] at htext
        cases htext
        exact .whole
      | complex info own declared =>
        exact complex_survives hown hchildKind.symm hdefaults hkept hfresh hvalues
      | list info own =>
        rw [← hchildKind] at hpolicy
        obtain ⟨rfl, -⟩ := hvalues
        rw [hpolicy]
        exact .whole
      | set info own =>
        cases own with
        | none => cases hchild
        | some own =>
          refine @Survives.entries _ ⟨p, parent, .set info (some own)⟩ _ (.inl hchildKind.symm)
            hchildKind fun key entry hentry hstays => ?_
          exact set_keeps hchildKind.symm hparentKind hparent hdefaults hvalues hentry hstays
      | map info own =>
        cases own with
        | none => cases hchild
        | some own =>
          refine @Survives.entries _ ⟨p, parent, .map info (some own)⟩ _ (.inr hchildKind.symm)
            hchildKind fun key entry hentry hstays => ?_
          exact map_keeps hchildKind.symm hparentKind hparent hdefaults hvalues hentry hstays

/-- Defaults never override what a child sets, whatever the property declares for values and
items. -/
theorem defaults_overridden {owner place : String} {p : Property} {parent child node : Node}
    {stale : Totals} (hdefaults : IsDefault rules.schema parent)
    (hfresh : ∀ place pair, MeetsFrom rules.schema ⟨p, parent, child⟩ place pair →
      ¬ (pair.IsStale ∧ pair.property.policy.stale = .useParent))
    (h : property rules owner place p parent child = .ok (node, stale)) :
    Survives rules.schema (some p) (some parent) child node := by
  induction child using tree_induction generalizing owner place p parent node stale with
  | complex info own declared ih =>
    have hown : ∀ e ∈ (Node.complex info own declared).properties?.getD [], Overrides rules e.2 :=
      fun e he => ih e he
    exact overrides_of_children hown hdefaults hfresh h
  | simple | absentList | list | absentSet | set | absentMap | map =>
    exact overrides_of_children (by simp [properties?]) hdefaults hfresh h

/-! ## Concrete nodes -/

theorem fresh_of_count {owner place : String} {p : Property} {parent child node : Node}
    {stale : Totals} (hchild : child.isOrdered = true)
    (h : property rules owner place p parent child = .ok (node, stale))
    (hnone : stale.discarded = 0) (path : List Spot) (pair : Pair)
    (hmet : MeetsFrom rules.schema ⟨p, parent, child⟩ path pair) :
    ¬ (pair.IsStale ∧ pair.property.policy.stale = .useParent) := by
  have hcount : ((stale.under .useParent : Nat) : ℕ∞) = _ := (counted hchild).pair h
  rw [Totals.under, hnone, Nat.cast_zero] at hcount
  rintro ⟨hstale, hpolicy⟩
  exact staleCount_eq_zero.1 hcount.symm path pair hmet hstale hpolicy

theorem holds_mapInfo {f : Info → Info} {n child : Node} {spot : Spot}
    (h : (n.mapInfo f).Holds s spot child) : ∃ c : Node, child = c.mapInfo f := by
  have hitem {own : List Node} {m : Node} (hm : m ∈ mapInfoItems f own) :
      ∃ c : Node, m = c.mapInfo f := by
    induction own with
    | nil => cases hm
    | cons c rest ih =>
      rcases List.mem_cons.1 hm with rfl | hm
      · exact ⟨c, rfl⟩
      · exact ih hm
  generalize hm : n.mapInfo f = m at h
  cases h with
  | property h =>
    rw [← hm, property?_mapInfo] at h
    obtain ⟨c, -, rfl⟩ := Option.map_eq_some_iff.1 h
    exact ⟨c, rfl⟩
  | @item info own i _ h =>
    have hown : (n.mapInfo f).items? = some own := by rw [hm, items?]
    rw [items?_mapInfo] at hown
    obtain ⟨others, -, rfl⟩ := Option.map_eq_some_iff.1 hown
    exact hitem (List.mem_of_getElem? h)
  | @member info own _ _ _ h =>
    have hown : (n.mapInfo f).items? = some own := by rw [hm, items?]
    rw [items?_mapInfo] at hown
    obtain ⟨others, -, rfl⟩ := Option.map_eq_some_iff.1 hown
    exact hitem h
  | @entry info own key _ h =>
    have hown : (n.mapInfo f).entries? = some own := by rw [hm, entries?]
    rw [entries?_mapInfo] at hown
    obtain ⟨others, -, rfl⟩ := Option.map_eq_some_iff.1 hown
    rw [mapInfoFields_eq] at h
    obtain ⟨e, -, he⟩ := List.mem_map.1 (Keyed.mem_of_lookup h)
    exact ⟨e.2, (Prod.mk.inj he).2.symm⟩

theorem isDefault_mapInfo {place : Scope.Path} (hplace : place.isStructural = true) (n : Node) :
    IsDefault s (n.mapInfo fun i => { i with definedAt := place }) := by
  intro path m hm
  suffices h : ∃ c : Node, m = c.mapInfo fun i => { i with definedAt := place } by
    obtain ⟨c, rfl⟩ := h
    rw [definedAt, info_mapInfo]
    exact hplace
  induction hm with
  | root => exact ⟨n, rfl⟩
  | held _ hchild ih =>
    obtain ⟨c, rfl⟩ := ih
    exact holds_mapInfo hchild

end Merge

/-! ## A small example

A template for an application, and what is set for all users of it.
-/

namespace Sample

open Merge Schema

/-- The default scope above the global one. -/
def template : Scope.Path := ⟨global.segments.take 2, by decide⟩

def asDefault (n : Node) : Node := n.mapInfo fun i => { i with definedAt := template }

/-- The node was saved when there was nothing but defaults. -/
def overDefault (n : Node) : Node := n.mapInfo fun i => { i with parentScope := some "default" }

/-- The application inside is taken from the parent, unless that is a default. -/
def inner : Property := (Property.complex "inner" "App").mergeBy .useParent

def defaultHandler : Node := asDefault (withEntry global handlers file)

def aliceHandler : Node := overDefault (withEntry alice handlers console)

theorem handler_survives :
    ∃ node, IsDefault (handledRules .useChild).schema defaultHandler ∧
      (∀ place pair, MeetsFrom (handledRules .useChild).schema ⟨inner, defaultHandler, aliceHandler⟩
        place pair → ¬ (pair.IsStale ∧ pair.property.policy.stale = .useParent)) ∧
      property (handledRules .useChild) "App" "App.inner" inner defaultHandler aliceHandler =
        .ok (node, .zero) ∧
      Survives (handledRules .useChild).schema (some inner) (some defaultHandler) aliceHandler
        node := by
  have hdefaults : IsDefault (handledRules .useChild).schema defaultHandler :=
    isDefault_mapInfo (by decide) _
  have h : property (handledRules .useChild) "App" "App.inner" inner defaultHandler aliceHandler =
    .ok (_, .zero) := rfl
  have hfresh := fresh_of_count (by decide) h rfl
  exact ⟨_, hdefaults, hfresh, h, defaults_overridden hdefaults hfresh h⟩

/-- No entries may be added. -/
def labels : Property := (Property.map "labels" .simple "string").entriesBy .remove .remove

def labelsAt (place : Scope.Path) (names : List String) : Node :=
  .map { definedAt := place, typeName := "string" } (some (names.map fun n => (n, wordAt place n)))

/-- Nothing is discarded, and yet the entry of the child is nowhere in the result. -/
def Loses (rules : Merge.Rules) (outer : Pair) (key : String) : Prop :=
  IsDefault rules.schema outer.parent ∧
    (∀ place pair, MeetsFrom rules.schema outer place pair →
      ¬ (pair.IsStale ∧ pair.property.policy.stale = .useParent)) ∧
    ∃ entry node stale, (outer.child.held rules.schema (outer.spot key)).head? = some entry ∧
      property rules "App" ("App." ++ outer.property.name) outer.property outer.parent outer.child =
        .ok (node, stale) ∧
      ¬ ∃ n, Retains entry n ∧ node.Holds rules.schema (outer.spot key) n

def newLabel : Pair :=
  ⟨labels, asDefault (labelsAt global ["a"]), overDefault (labelsAt alice ["a", "b"])⟩

def markedHook : Pair := ⟨hooks, asDefault globalHooks, overDefault aliceHooks⟩

theorem loses_of_held {rules : Merge.Rules} {outer : Pair} {key : String} {entry node : Node}
    (hdefaults : IsDefault rules.schema outer.parent) (hchild : outer.child.isOrdered = true)
    (hentry : (outer.child.held rules.schema (outer.spot key)).head? = some entry)
    (h : property rules "App" ("App." ++ outer.property.name) outer.property outer.parent
      outer.child = .ok (node, .zero))
    (hnone : node.held rules.schema (outer.spot key) = []) : Loses rules outer key := by
  refine ⟨hdefaults, fresh_of_count hchild h rfl, entry, node, .zero, hentry, h, ?_⟩
  rintro ⟨n, -, hn⟩
  rw [Node.holds_iff, hnone] at hn
  cases hn

/-- The second label is not in the template. And the marker takes the command of a hook with its
key, and has another key then. -/
theorem defaults_lose_entries :
    Loses (handledRules .useChild) newLabel "b" ∧
      Loses (handledRules .useChild) markedHook (marker alice).fingerprint := by
  have hlabels : property (handledRules .useChild) "App" ("App." ++ labels.name) labels
      newLabel.parent newLabel.child = .ok (_, .zero) := rfl
  have hhooks : property (handledRules .useChild) "App" ("App." ++ hooks.name) hooks
      markedHook.parent markedHook.child = .ok (_, .zero) := rfl
  exact ⟨loses_of_held (isDefault_mapInfo (by decide) _) (by decide) rfl hlabels rfl,
    loses_of_held (isDefault_mapInfo (by decide) _) (by decide) rfl hhooks rfl⟩

end Sample

end ScopedConfig
