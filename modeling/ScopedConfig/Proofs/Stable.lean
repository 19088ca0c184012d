import ScopedConfig.Proofs.Again
import ScopedConfig.Proofs.Order

/-!
# Merged nodes are stable

A node stays when it is merged into itself. A merge of two nodes stays when it is merged into the
upper one again: `Merge.merge_stays`.
-/

namespace ScopedConfig.Merge

open Schema Stamp Node

variable {rules : Rules} {target : Scope.Path} {p : Property} {above : Node}

/-! ## A node and itself -/

section
variable (rules target)

structure StaysItself (node : Node) : Prop where
  property : ∀ {p : Property}, rules.schema.HasProperty p → node.isOrdered = true →
    rules.schema.distinct p p.kind node = true → Stays rules target p node node
  item : ∀ {p : Property} {policy : ItemPolicy}, p.kind = .set ∨ p.kind = .map →
    node.isOrdered = true → rules.schema.distinct p p.itemKind.kind node = true →
    ItemStays rules target p policy node node

end

theorem inherits_itself {typeName : String} {type : Record} {node : Node}
    (htype : rules.schema.find? typeName = some type)
    (hown : ∀ e ∈ node.properties?.getD [], StaysItself rules target e.2)
    (hordered : node.isOrdered = true)
    (hdistinct : rules.schema.fieldsDistinct type (node.properties?.getD []) = true) :
    Inherits rules target type node node := by
  refine ⟨List.Subset.refl _, fun e he a q ha hq => ?_⟩
  have hsame := Keyed.lookup_of_mem (properties_sorted hordered) he
  obtain rfl : e.2 = a := Option.some.inj (hsame.symm.trans ha)
  exact (hown e he).property (hasProperty_of_find? htype hq) (properties_ordered hordered e he)
    (fieldsDistinct_iff.1 hdistinct e he q hq)

theorem withKey_of_nodup {s : Schema} {role : Role} {own : List Node} {item : Node}
    (hnodup : (own.map (keyOf s role)).Nodup) (hitem : item ∈ own) :
    withKey s role (some own) (keyOf s role item) = some item := by
  induction own with
  | nil => cases hitem
  | cons first rest ih =>
    obtain ⟨hnew, hrest⟩ := List.nodup_cons.1 hnodup
    rw [withKey, Option.getD_some, List.find?_cons]
    rcases List.mem_cons.1 hitem with rfl | hlater
    · simp
    · have hne : keyOf s role first ≠ keyOf s role item := by
        intro hsame
        exact hnew (List.mem_map.2 ⟨item, hlater, hsame.symm⟩)
      rw [beq_eq_false_iff_ne.2 hne]
      exact ih hrest hlater

variable (target) in
theorem stays_itself (hrules : Steady rules) (node : Node) : StaysItself rules target node := by
  -- As items, nodes of every kind stay for the same reason; the cases are about properties.
  have close {node : Node} (hown : ∀ e ∈ node.properties?.getD [], StaysItself rules target e.2)
      (hproperty : ∀ {p : Property}, rules.schema.HasProperty p → node.isOrdered = true →
        rules.schema.distinct p p.kind node = true → Stays rules target p node node) :
      StaysItself rules target node := by
    refine ⟨hproperty, fun {p} {policy} hkind hordered hdistinct => ?_⟩
    apply item_stays hkind (fun _ => .refl node) (fun _ _ => List.Subset.refl _)
    intro hitem type hmono htype _
    rw [hitem] at hdistinct
    exact inherits_itself htype hown hordered (properties_distinct hdistinct hmono htype)
  induction node using Node.tree_induction with
  | simple info text =>
    apply close (by simp [properties?])
    intro p hp _ _
    exact text_stays hrules hp fun _ => .refl _
  | complex info own declared ih =>
    refine @close (.complex info own declared) ih fun {p} hp hordered hdistinct => ?_
    apply complex_stays fun _ => .refl _
    intro hkind type hmono htype _
    rw [hkind] at hdistinct
    exact inherits_itself htype ih hordered (properties_distinct hdistinct hmono htype)
  | absentList | list =>
    apply close (by simp [properties?])
    intro p _ _ _
    exact list_stays (fun _ => .refl _) fun _ => .refl _
  | absentSet | absentMap =>
    apply close (by simp [properties?])
    intro p _ _ _
    exact stays_of (fun _ => .refl _) fun hthere => by simp [isAbsent] at hthere
  | set info own ih =>
    apply close (by simp [properties?])
    intro p hp hordered hdistinct
    apply set_stays
    intro hkind _ hkeyable
    rw [hkind] at hdistinct
    obtain ⟨hnodup, hitems⟩ := set_distinct_iff.1 hdistinct rfl
    rw [itemKeys_of_keyable hkeyable] at hnodup
    refine ⟨fun n hn => .inl ⟨n, withKey_of_nodup hnodup hn, ?_⟩, hnodup,
      fun _ => List.Subset.refl _⟩
    exact (ih n hn).item (.inl hkind) (set_ordered_iff.1 hordered n hn) (hitems n hn)
  | map info own ih =>
    apply close (by simp [properties?])
    intro p hp hordered hdistinct
    obtain ⟨hsorted, hentries⟩ := map_ordered_iff.1 hordered
    refine map_stays (fun hkind e he => ?_) fun _ => List.Subset.refl _
    rw [hkind] at hdistinct
    refine .inl ⟨e.2, Keyed.lookup_of_mem hsorted he, ?_⟩
    exact (ih e he).item (.inr hkind) (hentries e he) (map_distinct_iff.1 hdistinct rfl e he)

/-! ## A merge and its upper side -/

section
variable (rules target)

/-- What becomes of the child stays, if no key is repeated above. -/
structure MergeStays (child : Node) : Prop where
  property : ∀ {owner place : String} {p : Property} {above node : Node} {stale : Totals},
    rules.schema.HasProperty p → above.isOrdered = true →
    rules.schema.distinct p p.kind above = true →
    property rules owner place p above child = .ok (node, stale) → Stays rules target p above node
  item : ∀ {place : String} {p : Property} {policy : ItemPolicy} {above node : Node} {key : String}
    {stale : Totals}, p.kind = .set ∨ p.kind = .map → above.isOrdered = true →
    rules.schema.distinct p p.itemKind.kind above = true →
    item rules place p policy (some above) key child = .ok (some node, stale) →
    ItemStays rules target p policy above node

end

theorem inherits_joined (hrules : Steady rules) {typeName : String} {type : Record} {info : Info}
    {own merged : List (String × Node)} {declared : List String}
    (htype : rules.schema.find? typeName = some type)
    (hown : ∀ e ∈ own, MergeStays rules target e.2) (hordered : above.isOrdered = true)
    (hdistinct : rules.schema.fieldsDistinct type (above.properties?.getD []) = true)
    {place : String} {stale : Totals}
    (h : properties rules place type (above.properties?.getD []) own = .ok (merged, stale)) :
    Inherits rules target type above (joined info declared above merged) := by
  refine ⟨Keyed.subset_fillFrom _ _, fun e he a q ha hq => ?_⟩
  have hmem := Keyed.mem_of_lookup ha
  have hproperty := hasProperty_of_find? htype hq
  have haOrdered := properties_ordered hordered _ hmem
  have haDistinct := fieldsDistinct_iff.1 hdistinct _ hmem q hq
  rcases Keyed.mem_fillFrom he with he | he
  · have hsame := Keyed.lookup_of_mem (properties_sorted hordered) he
    obtain rfl : e.2 = a := Option.some.inj (hsame.symm.trans ha)
    exact (stays_itself target hrules e.2).property hproperty haOrdered haDistinct
  · obtain ⟨child, hchild, ⟨hnone, -⟩ | ⟨a', q', first, ha', hq', hmerged⟩⟩ := mem_properties h e he
    · rcases hnone with hnone | hnone
      · simp [hnone] at ha
      · simp [hnone] at hq
    · obtain rfl : a = a' := Option.some.inj (ha.symm.trans ha')
      obtain rfl : q = q' := Option.some.inj (hq.symm.trans hq')
      exact (hown _ hchild).property hproperty haOrdered haDistinct hmerged

theorem names_backfill {parent child : Node} (h : (backfill parent child).kind = .complex) :
    (parent.properties?.getD []).map Prod.fst ⊆
      ((backfill parent child).properties?.getD []).map Prod.fst := by
  rw [kind_backfill] at h
  cases child with
  | simple | list | set | map => cases h
  | complex info own declared =>
    cases parent with
    | complex _ inherited _ => exact Keyed.subset_fillFrom _ _
    | simple | list | set | map => simp [properties?]

theorem paired_of_item {policy : ItemPolicy} {above : Option Node} {child node : Node}
    (hchild : MergeStays rules target child) (hkind : p.kind = .set ∨ p.kind = .map)
    (habove : ∀ a, above = some a →
      a.isOrdered = true ∧ rules.schema.distinct p p.itemKind.kind a = true)
    {place key : String} {stale : Totals}
    (h : item rules place p policy above key child = .ok (some node, stale)) :
    Paired rules target p policy above node := by
  cases above with
  | none =>
    exact .inr ⟨rfl, (item_added h).1⟩
  | some a =>
    obtain ⟨hordered, hdistinct⟩ := habove a rfl
    exact .inl ⟨a, rfl, hchild.item hkind hordered hdistinct h⟩

theorem set_settled (hrules : Steady rules) {info : Info} {own : List Node}
    (hown : ∀ n ∈ own, MergeStays rules target n) (hp : rules.schema.HasProperty p)
    (hkind : p.kind = .set) (hordered : above.isOrdered = true)
    (hdistinct : ∀ item ∈ above.items?.getD [], rules.schema.distinct p p.itemKind.kind item = true)
    {place : String} {node : Node} {inner : Totals}
    (h : ValuesTo rules place p above (.set info (some own)) node inner) :
    ∃ merged, node = .set info (some merged) ∧ Settled rules target p above merged := by
  obtain ⟨aboveItems, keyed, pairs, habove, hkeyed, hpairs, rfl, hnodup, hkeys⟩ :=
    hrules.merged_set hp hkind h
  refine ⟨_, rfl, ?_⟩
  obtain ⟨-, hkeysAbove⟩ := keyItems_keyOf (List.forall₂_same.2 fun n _ => Alike.refl n) habove
  have hwithKey (key : String) :
      withKey rules.schema (.property p) above.items? key = aboveItems.lookup key := by
    rw [lookup_keyItems habove, withKey]
  have hfacts {key : String} {a : Node} (ha : aboveItems.lookup key = some a) :
      a.isOrdered = true ∧ rules.schema.distinct p p.itemKind.kind a = true := by
    have hmem := (keyItems_key habove _ (Keyed.mem_of_lookup ha)).1
    exact ⟨items_ordered hordered a hmem, hdistinct a hmem⟩
  obtain ⟨-, hkeyOf⟩ := keyable_of_keys hkeys
  refine ⟨fun n hn => ?_, by rwa [hkeyOf], fun hremoved => ?_⟩
  · obtain ⟨e, he, rfl⟩ := List.mem_map.1 hn
    rw [keyOf_eq (hkeys e he), hwithKey]
    rcases List.mem_append.1 he with he | he
    · obtain ⟨child, _, hchild, hitem⟩ := hpairs.source e he
      have hmem := (keyItems_key hkeyed _ (Keyed.mem_of_lookup hchild)).1
      exact paired_of_item (hown child hmem) (.inl hkind) (fun a ha => hfacts ha) hitem
    · obtain ⟨-, -, ha⟩ := mem_survivors he
      obtain ⟨haOrdered, haDistinct⟩ := hfacts ha
      exact .inl ⟨e.2, ha, (stays_itself target hrules e.2).item (.inl hkind) haOrdered haDistinct⟩
  · rw [hkeyOf, ← hkeysAbove, List.map_append]
    intro key hkey
    rw [List.mem_append, ← Keyed.lookup_isSome_iff, ← Keyed.lookup_isSome_iff]
    obtain ⟨a, ha⟩ := Option.isSome_iff_exists.1 (Keyed.lookup_isSome_iff.2 hkey)
    cases hchild : keyed.lookup key with
    | none =>
      have hnew : key ∉ keyed.map Prod.fst := by simp [← Keyed.lookup_isSome_iff, hchild]
      refine .inr ?_
      rw [lookup_survivors hremoved, if_neg hnew, ha]
      rfl
    | some child =>
      obtain ⟨kept, first, hitem, hmem⟩ := hpairs.complete key child (by simp) hchild
      rw [ha] at hitem
      obtain ⟨node, rfl⟩ := item_kept hitem
      exact .inl (Keyed.lookup_isSome_iff.2 (List.mem_map_of_mem (hmem node rfl)))

theorem map_merge_stays (hrules : Steady rules) {info : Info} {own : List (String × Node)}
    (hown : ∀ e ∈ own, MergeStays rules target e.2) (hordered : above.isOrdered = true)
    (hdistinct : rules.schema.distinct p p.kind above = true) {place : String}
    {merged : List (String × Node)} {stale : Totals}
    (h : entries rules place p (effectiveItemPolicy p above) (above.entries?.getD []) own =
      .ok (merged, stale)) :
    Stays rules target p above (.map info (some (Keyed.fillFrom
      (survivors p (above.entries?.getD []) (own.map Prod.fst)) merged))) := by
  refine map_stays (fun hkind e he => ?_) fun hremoved key hkey => ?_
  · rw [hkind] at hdistinct
    have hfacts {key : String} {a : Node} (ha : (above.entries?.getD []).lookup key = some a) :
        a.isOrdered = true ∧ rules.schema.distinct p p.itemKind.kind a = true := by
      have hmem := Keyed.mem_of_lookup ha
      exact ⟨entries_ordered hordered _ hmem, entries_distinct hdistinct _ hmem⟩
    rcases Keyed.mem_fillFrom he with he | he
    · obtain ⟨-, -, ha⟩ := mem_survivors he
      obtain ⟨haOrdered, haDistinct⟩ := hfacts ha
      exact .inl ⟨e.2, ha, (stays_itself target hrules e.2).item (.inr hkind) haOrdered haDistinct⟩
    · obtain ⟨child, first, hchild, hitem⟩ := mem_entries h e he
      exact paired_of_item (hown _ hchild) (.inr hkind) (fun a ha => hfacts ha) hitem
  · obtain ⟨a, ha⟩ := Option.isSome_iff_exists.1 (Keyed.lookup_isSome_iff.2 hkey)
    cases hchild : own.lookup key with
    | none =>
      have hnew : key ∉ own.map Prod.fst := by simp [← Keyed.lookup_isSome_iff, hchild]
      refine Keyed.subset_fillFrom _ _ (Keyed.lookup_isSome_iff.1 ?_)
      rw [lookup_survivors hremoved, if_neg hnew, ha]
      rfl
    | some child =>
      obtain ⟨kept, first, hitem, hlookup⟩ := entries_lookup hchild h
      rw [ha] at hitem
      obtain ⟨node, rfl⟩ := item_kept hitem
      rw [← Keyed.lookup_isSome_iff, Keyed.lookup_fillFrom_of_some _ (hlookup node rfl)]
      rfl

theorem text_merge_stays (hrules : Steady rules) (hp : rules.schema.HasProperty p)
    (hordered : above.isOrdered = true) (hdistinct : rules.schema.distinct p p.kind above = true)
    {info : Info} {text : Option String} {place : String} {node : Node} {inner : Totals}
    (h : ValuesTo rules place p above (.simple info text) node inner) :
    Stays rules target p above node := by
  obtain ⟨htext, -⟩ := h
  cases hpolicy : effectivePolicy p above with
  | useChild =>
    rw [hpolicy] at htext
    cases htext
    exact text_stays hrules hp fun h => by simp [hpolicy] at h
  | useParent =>
    rw [hpolicy] at htext
    cases htext
    exact (stays_itself target hrules above).property hp hordered hdistinct
  | merge => simp [hpolicy, mergeText, Error.misuse] at htext
  | strategy name => exact absurd hpolicy (hrules.ne_strategy hp above name)

theorem complex_merge_stays (hrules : Steady rules) {info : Info} {own : List (String × Node)}
    {declared : List String} (hown : ∀ e ∈ own, MergeStays rules target e.2)
    (hp : rules.schema.HasProperty p) (hordered : above.isOrdered = true)
    (hdistinct : rules.schema.distinct p .complex above = true) (hkind : p.kind = .complex)
    {place : String} {node : Node} {inner : Totals}
    (h : ValuesTo rules place p above (.complex info own declared) node inner) :
    Stays rules target p above node := by
  obtain ⟨hchoice, rfl, -⟩ | ⟨-, rfl, -⟩ | ⟨type, merged, hchoice, hmerged, rfl⟩ := h
  · have hpolicy : effectivePolicy p above = .useChild := policy_of_choice hchoice
    exact complex_stays (fun h => by simp [hpolicy] at h) fun _ _ _ _ h => by simp [hpolicy] at h
  · rw [← hkind] at hdistinct
    exact (stays_itself target hrules node).property hp hordered hdistinct
  · have hpolicy : effectivePolicy p above = .merge := policy_of_choice hchoice
    obtain ⟨hmono, htype⟩ := chooseComplex_combine hchoice
    have hinherits : Inherits rules target type above (joined info declared above merged) :=
      inherits_joined hrules htype hown hordered (properties_distinct hdistinct hmono htype) hmerged
    exact complex_stays (fun h => by simp [hpolicy] at h)
      fun _ _ _ htype' _ => hinherits.of_find? htype htype'

theorem item_merge_stays (hrules : Steady rules) {child : Node}
    (hown : ∀ e ∈ child.properties?.getD [], MergeStays rules target e.2) {policy : ItemPolicy}
    (hkind : p.kind = .set ∨ p.kind = .map) (hordered : above.isOrdered = true)
    (hdistinct : rules.schema.distinct p p.itemKind.kind above = true) {place key : String}
    {node : Node} {stale : Totals}
    (h : item rules place p policy (some above) key child = .ok (some node, stale)) :
    ItemStays rules target p policy above node := by
  obtain ⟨-, hnode⟩ | ⟨hpolicy, hnode⟩ | ⟨hpolicy, _, type, info, own, declared, merged, rfl,
    ⟨hmono, hitem, htype⟩, hmerged, hnode⟩ := item_paired h
  · cases hnode
    exact (stays_itself target hrules above).item hkind hordered hdistinct
  · cases hnode
    exact item_stays hkind (fun h => by simp [hpolicy] at h) (fun _ => names_backfill)
      fun _ _ _ _ h => by simp [hpolicy] at h
  · cases hnode
    rw [hitem] at hdistinct
    have hinherits : Inherits rules target type above (joined info declared above merged) :=
      inherits_joined hrules htype hown hordered (properties_distinct hdistinct hmono htype) hmerged
    exact item_stays hkind (fun h => by simp [hpolicy] at h) (fun h => by simp [hpolicy] at h)
      fun _ _ _ htype' _ => hinherits.of_find? htype htype'

theorem mergeStays_of_values (hrules : Steady rules) {child : Node}
    (hown : ∀ e ∈ child.properties?.getD [], MergeStays rules target e.2)
    (hvalues : ∀ {place : String} {p : Property} {above node : Node} {inner : Totals},
      rules.schema.HasProperty p → above.isOrdered = true →
      rules.schema.distinct p p.kind above = true → (above.kind = p.kind ∧ child.kind = p.kind) →
      child.isAbsent = false → ValuesTo rules place p above child node inner →
      Stays rules target p above node) : MergeStays rules target child := by
  refine ⟨fun {owner place p above node stale} hp hordered hdistinct h => ?_,
    fun hkind hordered hdistinct h => item_merge_stays hrules hown hkind hordered hdistinct h⟩
  obtain ⟨hkinds, rfl | ⟨⟨hchild, habove⟩, rfl⟩ | ⟨⟨hchild, -⟩, inner, hinner⟩⟩ := property_sides h
  · exact (stays_itself target hrules node).property hp hordered hdistinct
  · exact stays_of_absent habove hchild
  · exact hvalues hp hordered hdistinct hkinds hchild hinner

variable (target) in
theorem merge_stays (hrules : Steady rules) (child : Node) : MergeStays rules target child := by
  induction child using Node.tree_induction with
  | simple info text =>
    exact mergeStays_of_values hrules (by simp [properties?]) fun hp hordered hdistinct _ _ h =>
      text_merge_stays hrules hp hordered hdistinct h
  | complex info own declared ih =>
    refine mergeStays_of_values hrules ih fun hp hordered hdistinct hkinds _ h => ?_
    rw [← hkinds.2] at hdistinct
    exact complex_merge_stays hrules ih hp hordered hdistinct hkinds.2.symm h
  | absentList | absentSet | absentMap =>
    refine mergeStays_of_values hrules (by simp [properties?]) fun _ _ _ _ hthere _ => ?_
    simp [isAbsent] at hthere
  | list info own =>
    refine mergeStays_of_values hrules (by simp [properties?]) fun hp hordered hdistinct _ _ h => ?_
    obtain ⟨rfl, -⟩ := h
    split
    · exact (stays_itself target hrules _).property hp hordered hdistinct
    · exact list_stays (fun h => by cases h) fun h => absurd h ‹_›
  | set info own ih =>
    refine mergeStays_of_values hrules (by simp [properties?]) ?_
    rintro place p above node inner hp hordered hdistinct ⟨habove, hkind⟩ - h
    rw [← hkind] at habove hdistinct
    obtain ⟨merged, rfl, hsettled⟩ := set_settled hrules ih hp hkind.symm hordered
      (items_distinct hdistinct habove).2 h
    exact set_stays fun _ _ _ => hsettled
  | map info own ih =>
    refine mergeStays_of_values hrules (by simp [properties?]) fun hp hordered hdistinct _ _ h => ?_
    obtain ⟨merged, -, -, hmerged, rfl⟩ := h
    exact map_merge_stays hrules ih hordered hdistinct hmerged

end ScopedConfig.Merge
