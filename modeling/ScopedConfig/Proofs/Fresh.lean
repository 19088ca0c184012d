import ScopedConfig.Proofs.ItemKey
import ScopedConfig.Proofs.Merge

/-!
# Fresh snapshots

A snapshot that was stamped against the merged node above it is not stale there. Stamping and
merging walk the two trees in the same way: by name, by key, and by the first item with a key.
-/

namespace ScopedConfig.Merge

open Schema Stamp ScopedConfig.Except

variable (rules : Rules) (target : Scope.Path)

theorem isStale_stamp (role : Role) (previous : Option Node) (parent child : Node) :
    isStale parent (stamp rules.schema target role previous (some parent) child) = false := by
  simp [isStale, stampInfo]

/-- What the node is stamped against gives no stale pair when the node is merged into it, whether it
stands for a property or for an item of a collection. -/
structure Fresh (child : Node) : Prop where
  property : ∀ {owner place : String} {p : Property} {parent : Node} {previous : Option Node}
    {node : Node} {stale : Totals},
    property rules owner place p parent
      (stamp rules.schema target (.property p) previous (some parent) child) = .ok (node, stale) →
    stale = .zero
  item : ∀ {place : String} {p : Property} {policy : ItemPolicy} {parent previous : Option Node}
    {key : String} {kept : Option Node} {stale : Totals}, p.kind = .set ∨ p.kind = .map →
    item rules place p policy parent key
      (stamp rules.schema target (itemRole rules.schema (.property p) child) previous parent
        child) = .ok (kept, stale) →
    stale = .zero

/-! ## Lists of nodes -/

section
variable {rules target}

theorem properties_fresh {own : List (String × Node)} (hown : ∀ e ∈ own, Fresh rules target e.2)
    {place : String} {type : Record} {above : Node} {previous : Option Node}
    {merged : List (String × Node)} {stale : Totals}
    (h : properties rules place type (above.properties?.getD [])
      (stampProperties rules.schema target (some type) previous (some above) own) =
        .ok (merged, stale)) : stale = .zero := by
  induction own generalizing merged stale with
  | nil => cases h; rfl
  | cons e rest ih =>
    obtain ⟨name, child⟩ := e
    obtain ⟨node, first, nodes, others, hfirst, hothers, -, rfl⟩ := properties_cons_ok h
    have hrest : others = .zero := ih (fun e he => hown e (List.mem_cons_of_mem _ he)) hothers
    obtain ⟨parent, p, hparent, hfind, hp⟩ | ⟨-, -, rfl⟩ := hfirst
    · have hproperty : above.property? name = some parent := by
        cases hps : above.properties? <;> simp_all [Node.property?]
      simp only [Option.bind_some, propertyRole, hfind, hproperty] at hp
      rw [(hown (name, child) List.mem_cons_self).property hp, hrest, Totals.zero_add]
    · rw [hrest, Totals.zero_add]

theorem items_fresh {own : List Node} (hown : ∀ n ∈ own, Fresh rules target n) {place : String}
    {p : Property} (hkind : p.kind = .set ∨ p.kind = .map) {policy : ItemPolicy}
    {above keyed : List (String × Node)} {previous aboveItems : Option (List Node)}
    {seen : List String} {nodes : List Node} {stale : Totals}
    (habove : keyItems rules place p (aboveItems.getD []) = .ok above)
    (hkeyed : keyItems rules place p
      (stampSet rules.schema target (.property p) previous aboveItems own) = .ok keyed)
    (h : items rules place p policy above seen (keyed.map Prod.fst)
      (stampSet rules.schema target (.property p) previous aboveItems own) = .ok (nodes, stale)) :
    stale = .zero := by
  induction own generalizing keyed seen nodes stale with
  | nil => cases h; rfl
  | cons child rest ih =>
    obtain ⟨key, keyedRest, hkey, hrest, rfl⟩ := keyItems_cons hkeyed
    have ih := @ih (fun n hn => hown n (List.mem_cons_of_mem _ hn)) keyedRest
    obtain ⟨-, h⟩ | ⟨-, kept, first, others, more, hitem, hmore, -, rfl⟩ := items_cons_ok h
    · exact ih hrest h
    · -- The item is stamped against the one that the merge pairs it with.
      have hpair : above.lookup key =
          withKey rules.schema (.property p) aboveItems
            (keyOf rules.schema (.property p) child) := by
        rw [lookup_keyItems habove, keyOf_eq (itemKey_stamp.1 hkey), withKey]
      rw [hpair] at hitem
      rw [(hown child List.mem_cons_self).item hkind hitem, ih hrest hmore, Totals.zero_add]

theorem entries_fresh {own : List (String × Node)} (hown : ∀ e ∈ own, Fresh rules target e.2)
    {place : String} {p : Property} (hkind : p.kind = .set ∨ p.kind = .map) {policy : ItemPolicy}
    {parent : Node} {previous : Option Node} {merged : List (String × Node)} {stale : Totals}
    (h : entries rules place p policy (parent.entries?.getD [])
      (stampEntries rules.schema target (.property p) previous (some parent) own) =
        .ok (merged, stale)) : stale = .zero := by
  induction own generalizing merged stale with
  | nil => cases h; rfl
  | cons e rest ih =>
    obtain ⟨key, child⟩ := e
    obtain ⟨kept, first, others, more, hitem, hmore, -, rfl⟩ := entries_cons_ok h
    have hpair : (parent.entries?.getD []).lookup key =
        (some parent).bind fun a => a.entries?.bind fun es => es.lookup key := by
      cases h : parent.entries? <;> simp [h]
    rw [hpair] at hitem
    rw [(hown (key, child) List.mem_cons_self).item hkind hitem,
      ih (fun e he => hown e (List.mem_cons_of_mem _ he)) hmore, Totals.zero_add]

end

/-! ## All nodes -/

section
variable {rules target}

theorem settled_fresh {owner place : String} {p : Property} {role : Role} {parent child : Node}
    {previous : Option Node} {v : Verdict}
    (h : settle rules owner place p parent
      (stamp rules.schema target role previous (some parent) child) = .ok v) : v.stale = .zero :=
  settle_fresh (isStale_stamp rules target role previous parent child) h

theorem property_fresh {owner place : String} {p : Property} {parent child node : Node}
    {previous : Option Node} {stale : Totals}
    (h : property rules owner place p parent
      (stamp rules.schema target (.property p) previous (some parent) child) = .ok (node, stale))
    (hvalues : ∀ node inner, p.kind = child.kind →
      ValuesTo rules place p parent
        (stamp rules.schema target (.property p) previous (some parent) child) node inner →
      inner = .zero) : stale = .zero := by
  obtain hsettled | ⟨first, inner, hsettled, hinner, rfl⟩ := property_ok h
  · exact settled_fresh hsettled
  · have hkind := (settle_ok hsettled).1.2
    rw [kind_stamp] at hkind
    rw [hvalues node inner hkind.symm hinner, Totals.add_zero]
    exact settled_fresh hsettled

theorem item_fresh {place : String} {p : Property} {policy : ItemPolicy}
    {parent previous : Option Node} {key : String} {child : Node} {kept : Option Node}
    {stale : Totals} {role : Role}
    (h : item rules place p policy parent key
      (stamp rules.schema target role previous parent child) = .ok (kept, stale))
    (hcombine : ∀ type above info own declared merged, parent = some above →
      child = .complex info own declared → p.polymorphic = false → p.itemKind = .complex →
      rules.schema.find? p.typeName = some type →
      properties rules (place ++ "[" ++ key ++ "]") type (above.properties?.getD [])
        (stampProperties rules.schema target (recordOf rules.schema role child) previous
          (some above) own) = .ok (merged, stale) →
      stale = .zero) : stale = .zero := by
  obtain ⟨-, -, hzero⟩ | ⟨above, rfl, ⟨-, hzero⟩ | ⟨-, hzero⟩ |
    ⟨type, info, own, declared, merged, hchild, hchoice, hmerged, -⟩⟩ := item_ok h
  · exact hzero
  · exact hzero
  · exact hzero
  · obtain ⟨hmono, hitem, hfind⟩ := chooseItem_combine hchoice
    cases child with
    | complex info' own' declared' =>
      simp only [stamp, Node.complex.injEq] at hchild
      obtain ⟨-, rfl, -⟩ := hchild
      exact hcombine type above info' own' declared' merged rfl rfl hmono hitem hfind hmerged
    | simple | list | set | map =>
      have hkind := congrArg Node.kind hchild
      rw [kind_stamp] at hkind
      simp [Node.kind] at hkind

theorem recordOf_property {s : Schema} {p : Property} {type : Record} (n : Node)
    (hkind : p.kind = .complex) (hmono : p.polymorphic = false)
    (hfind : s.find? p.typeName = some type) :
    recordOf s (.property p) n = some type := by
  simp [recordOf, Schema.recordFor, Property.hasComplexItems, hkind, hmono, hfind]

theorem recordOf_item {s : Schema} {p : Property} {type : Record} (n : Node)
    (hkind : p.kind = .set ∨ p.kind = .map) (hmono : p.polymorphic = false)
    (hitem : p.itemKind = .complex) (hfind : s.find? p.typeName = some type) :
    recordOf s (itemRole s (.property p) n) n = some type := by
  have hrecord : s.recordFor p n = some type := by
    rcases hkind with hkind | hkind <;>
      simp [Schema.recordFor, Property.hasComplexItems, hkind, hitem, hmono, hfind]
  simp [itemRole, hrecord, recordOf]

theorem fresh_of_values {child : Node}
    (hown : ∀ e ∈ child.properties?.getD [], Fresh rules target e.2)
    (hvalues : ∀ {place : String} {p : Property} {parent node : Node} {previous : Option Node}
      {inner : Totals}, p.kind = child.kind →
      ValuesTo rules place p parent
        (stamp rules.schema target (.property p) previous (some parent) child) node inner →
      inner = .zero) : Fresh rules target child := by
  refine ⟨fun h => property_fresh h fun _ _ hkind hinner => hvalues hkind hinner,
    fun hkind h => ?_⟩
  -- Only the properties of a complex item are merged one by one.
  apply item_fresh h
  rintro type above info own declared merged - rfl hmono hitem hfind hmerged
  rw [recordOf_item _ hkind hmono hitem hfind] at hmerged
  exact properties_fresh hown hmerged

variable (rules target) in
theorem fresh (child : Node) : Fresh rules target child := by
  induction child using Node.tree_induction with
  | simple info text | list info own =>
    exact fresh_of_values (by simp [Node.properties?]) fun _ hvalues => hvalues.2
  | absentList info | absentSet info | absentMap info =>
    refine fresh_of_values (by simp [Node.properties?]) fun _ hvalues => ?_
    simp only [stamp] at hvalues
    exact hvalues.2
  | complex info own declared ih =>
    refine fresh_of_values ih fun hkind hvalues => ?_
    obtain ⟨-, -, hzero⟩ | ⟨-, -, hzero⟩ | ⟨type, merged, hchoice, hmerged, -⟩ := hvalues
    · exact hzero
    · exact hzero
    · obtain ⟨hmono, hfind⟩ := chooseComplex_combine hchoice
      rw [recordOf_property _ hkind hmono hfind] at hmerged
      exact properties_fresh ih hmerged
  | set info own ih =>
    refine fresh_of_values (by simp [Node.properties?]) fun hkind hvalues => ?_
    obtain ⟨above, keyed, merged, habove, hkeyed, hmerged, -⟩ := hvalues
    exact items_fresh ih (.inl hkind) habove hkeyed hmerged
  | map info own ih =>
    refine fresh_of_values (by simp [Node.properties?]) fun hkind hvalues => ?_
    obtain ⟨merged, -, -, hmerged, -⟩ := hvalues
    exact entries_fresh ih (.inr hkind) hmerged

end

/-! ## Snapshots -/

/-- A snapshot that is stored gives no stale pair below the node that it was stamped against. -/
theorem levelsFrom_forSave {type : Record} {previous above merged : Option Node} {current : Node}
    {stale : Totals}
    (h : levelsFrom rules type above
      [some (forSave rules.schema type previous current above target)] = .ok (merged, stale)) :
    stale = .zero := by
  cases above with
  | none =>
    cases h
    rfl
  | some above =>
    obtain ⟨⟨node, first⟩, hnode, h⟩ := bind_eq_ok.1 h
    cases h
    obtain ⟨-, info, own, declared, nodes, hstamped, hnodes, -⟩ := complex_ok hnode
    cases current with
    | complex info' own' declared' =>
      simp only [forSave, stamp, Node.complex.injEq] at hstamped
      obtain ⟨-, rfl, -⟩ := hstamped
      exact properties_fresh (fun e _ => fresh rules target e.2) hnodes
    | simple | list | set | map =>
      have hkind := congrArg Node.kind hstamped
      rw [forSave, kind_stamp] at hkind
      simp [Node.kind] at hkind

end ScopedConfig.Merge
