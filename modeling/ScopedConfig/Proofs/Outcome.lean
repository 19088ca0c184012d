import ScopedConfig.Proofs.ItemKey
import ScopedConfig.Proofs.Merge

/-!
# What a merged value is made of

A merge takes nodes of the two sides as they are, or puts a node together from parts of both. A
statement about property, parent, child and result that such a step preserves holds of every merge.
-/

namespace ScopedConfig.Merge

open Schema ScopedConfig.Except

/-! ## Outcomes -/

section
variable (rules : Rules) (R : Property → Node → Node → Node → Prop)

/-- The merged properties are those of the child, one by one. A declared property that the parent
has too is in the relation, and the others are as they were. -/
inductive Fields (type : Record) (inherited : List (String × Node)) :
    List (String × Node) → List (String × Node) → Prop where
  | nil : Fields type inherited [] []
  | taken {name : String} {child : Node} {own merged : List (String × Node)}
    (h : inherited.lookup name = none ∨ type.find? name = none)
    (rest : Fields type inherited own merged) :
    Fields type inherited ((name, child) :: own) ((name, child) :: merged)
  | paired {name : String} {p : Property} {parent child node : Node}
    {own merged : List (String × Node)} (hparent : inherited.lookup name = some parent)
    (hfind : type.find? name = some p) (h : R p parent child node)
    (rest : Fields type inherited own merged) :
    Fields type inherited ((name, child) :: own) ((name, node) :: merged)

/-- What an item of the child becomes. The node above it is the parent's item with the same key. -/
inductive ItemOutcome (p : Property) (above : Option Node) (child : Node) : Node → Prop where
  | added (h : above = none) : ItemOutcome p above child child
  | parent {parent : Node} (h : above = some parent) : ItemOutcome p above child parent
  | backfilled {parent : Node} (h : above = some parent) :
    ItemOutcome p above child (backfill parent child)
  | joined {parent : Node} {type : Record} {info : Info} {own merged : List (String × Node)}
    {declared : List String} (h : above = some parent) (hchild : child = .complex info own declared)
    (hmono : p.polymorphic = false) (htype : rules.schema.find? p.typeName = some type)
    (hmerged : Fields R type (parent.properties?.getD []) own merged) :
    ItemOutcome p above child (joined info declared parent merged)

/-- What the value of a property becomes. -/
inductive Outcome (p : Property) (parent : Node) : Node → Node → Prop where
  | parent {child : Node} : Outcome p parent child parent
  | child {child : Node} : Outcome p parent child child
  | text {info : Info} {own merged : Option String} :
    Outcome p parent (.simple info own) (.simple info merged)
  | joined {type : Record} {info : Info} {own merged : List (String × Node)}
    {declared : List String} (hmono : p.polymorphic = false)
    (htype : rules.schema.find? p.typeName = some type)
    (hmerged : Fields R type (parent.properties?.getD []) own merged) :
    Outcome p parent (.complex info own declared) (joined info declared parent merged)
  | set {info : Info} {own merged : List Node}
    (hmerged : ∀ n ∈ merged, n ∈ parent.items?.getD [] ∨ ∃ child ∈ own, ∃ above,
      (∀ a, above = some a → a ∈ parent.items?.getD []) ∧ ItemOutcome rules R p above child n) :
    Outcome p parent (.set info (some own)) (.set info (some merged))
  | map {info : Info} {own merged kept : List (String × Node)}
    (hkept : ∀ e ∈ kept, e ∈ parent.entries?.getD [])
    (hkeys : (merged.map Prod.fst).Sublist (own.map Prod.fst))
    (hmerged : ∀ e ∈ merged, ∃ child, (e.1, child) ∈ own ∧
      ItemOutcome rules R p ((parent.entries?.getD []).lookup e.1) child e.2) :
    Outcome p parent (.map info (some own)) (.map info (some (Keyed.fillFrom kept merged)))

/-- Where the node ends up that the child holds, as a property or as an item. -/
structure Ends (child : Node) : Prop where
  property : ∀ {owner place : String} {p : Property} {parent node : Node} {stale : Totals},
    property rules owner place p parent child = .ok (node, stale) → R p parent child node
  item : ∀ {place : String} {p : Property} {policy : ItemPolicy} {above : Option Node}
    {key : String} {node : Node} {stale : Totals},
    item rules place p policy above key child = .ok (some node, stale) →
    ItemOutcome rules R p above child node

end

/-! ## Lists of nodes -/

section
variable {rules : Rules} {R : Property → Node → Node → Node → Prop}

theorem properties_fields {own : List (String × Node)} (hown : ∀ e ∈ own, Ends rules R e.2)
    {place : String} {type : Record} {inherited merged : List (String × Node)} {stale : Totals}
    (h : properties rules place type inherited own = .ok (merged, stale)) :
    Fields R type inherited own merged := by
  induction own generalizing merged stale with
  | nil =>
    cases h
    exact .nil
  | cons e rest ih =>
    obtain ⟨name, child⟩ := e
    obtain ⟨node, first, nodes, others, hfirst, hrest, rfl, -⟩ := properties_cons_ok h
    have hfields := ih (fun e he => hown e (List.mem_cons_of_mem _ he)) hrest
    obtain ⟨parent, p, hparent, hfind, hp⟩ | ⟨hnone, rfl, -⟩ := hfirst
    · exact .paired hparent hfind ((hown (name, child) List.mem_cons_self).property hp) hfields
    · exact .taken hnone hfields

theorem items_outcome {own : List Node} (hown : ∀ n ∈ own, Ends rules R n) {place : String}
    {p : Property} {policy : ItemPolicy} {above : List (String × Node)} {seen keys : List String}
    {merged : List Node} {stale : Totals}
    (h : items rules place p policy above seen keys own = .ok (merged, stale)) :
    ∀ n ∈ merged, ∃ child ∈ own, ∃ key, ItemOutcome rules R p (above.lookup key) child n := by
  induction own generalizing seen keys merged stale with
  | nil =>
    cases h
    simp
  | cons child rest ih =>
    have hrest := @ih fun n hn => hown n (List.mem_cons_of_mem _ hn)
    cases keys with
    | nil =>
      cases h
      simp
    | cons key keys =>
      intro n hn
      obtain ⟨-, h⟩ | ⟨-, kept, first, others, more, hitem, hmore, rfl, -⟩ := items_cons_ok h
      · obtain ⟨c, hc, hout⟩ := hrest h n hn
        exact ⟨c, List.mem_cons_of_mem _ hc, hout⟩
      · rcases List.mem_append.1 hn with hn | hn
        · rw [Option.mem_toList] at hn
          subst hn
          exact ⟨child, List.mem_cons_self, key, (hown child List.mem_cons_self).item hitem⟩
        · obtain ⟨c, hc, hout⟩ := hrest hmore n hn
          exact ⟨c, List.mem_cons_of_mem _ hc, hout⟩

theorem entries_outcome {own : List (String × Node)} (hown : ∀ e ∈ own, Ends rules R e.2)
    {place : String} {p : Property} {policy : ItemPolicy} {above merged : List (String × Node)}
    {stale : Totals} (h : entries rules place p policy above own = .ok (merged, stale)) :
    (merged.map Prod.fst).Sublist (own.map Prod.fst) ∧
      ∀ e ∈ merged, ∃ child, (e.1, child) ∈ own ∧
        ItemOutcome rules R p (above.lookup e.1) child e.2 := by
  induction own generalizing merged stale with
  | nil =>
    cases h
    simp
  | cons e rest ih =>
    obtain ⟨key, child⟩ := e
    obtain ⟨kept, first, others, more, hitem, hmore, rfl, -⟩ := entries_cons_ok h
    obtain ⟨hkeys, hout⟩ := ih (fun e he => hown e (List.mem_cons_of_mem _ he)) hmore
    have hlater : ∀ e ∈ more, ∃ child', (e.1, child') ∈ (key, child) :: rest ∧
        ItemOutcome rules R p (above.lookup e.1) child' e.2 := by
      intro e he
      obtain ⟨c, hc, hce⟩ := hout e he
      exact ⟨c, List.mem_cons_of_mem _ hc, hce⟩
    cases kept with
    | none => exact ⟨hkeys.cons key, hlater⟩
    | some node =>
      refine ⟨hkeys.cons_cons key, fun e he => ?_⟩
      rcases List.mem_cons.1 he with rfl | he
      · exact ⟨child, List.mem_cons_self, (hown (key, child) List.mem_cons_self).item hitem⟩
      · exact hlater e he

theorem keyItems_items {place : String} {p : Property} {own : List Node}
    {keyed : List (String × Node)} (h : keyItems rules place p own = .ok keyed) :
    keyed.map Prod.snd = own := by
  induction own generalizing keyed with
  | nil =>
    cases h
    rfl
  | cons item rest ih =>
    obtain ⟨key, keyedRest, -, hrest, rfl⟩ := keyItems_cons h
    rw [List.map_cons, ih hrest]

theorem mem_of_survivors {p : Property} {parent : List (String × Node)} {childKeys : List String}
    {e : String × Node} (h : e ∈ survivors p parent childKeys) : e ∈ parent := by
  unfold survivors at h
  split at h
  · cases h
  · suffices ∀ kept : List (String × Node), e ∈ parent.foldl (fun kept e =>
        if childKeys.contains e.1 || (kept.lookup e.1).isSome then kept else kept ++ [e]) kept →
        e ∈ kept ∨ e ∈ parent by
      simpa using this [] h
    clear h
    induction parent with
    | nil => exact fun _ h => .inl h
    | cons first rest ih =>
      intro kept h
      rw [List.foldl_cons] at h
      rcases ih _ h with h | h
      · split at h
        · exact .inl h
        · rcases List.mem_append.1 h with h | h
          · exact .inl h
          · exact .inr (List.mem_cons.2 (.inl (List.mem_singleton.1 h)))
      · exact .inr (List.mem_cons_of_mem _ h)

/-! ## All nodes -/

theorem mergeText_outcome {place : String} {p : Property} {policy : ValuePolicy}
    {parent node : Node} {info : Info} {text : Option String}
    (h : mergeText rules place policy parent info text = .ok node) :
    Outcome rules R p parent (.simple info text) node := by
  unfold mergeText at h
  cases policy with
  | useChild =>
    cases h
    exact .child
  | useParent =>
    cases h
    exact .parent
  | merge => simp [Error.misuse] at h
  | strategy name =>
    cases hfind : rules.strategies.find? name with
    | none => simp [hfind, Error.misuse] at h
    | some combine =>
      simp only [hfind, Except.ok.injEq] at h
      subst h
      exact .text

theorem property_outcome {owner place : String} {p : Property} {parent child node : Node}
    {stale : Totals} (h : property rules owner place p parent child = .ok (node, stale))
    (hvalues : ∀ inner, ValuesTo rules place p parent child node inner →
      Outcome rules R p parent child node) :
    (parent.kind = p.kind ∧ child.kind = p.kind) ∧ Outcome rules R p parent child node := by
  obtain hv | ⟨first, inner, hv, hinner, -⟩ := property_ok h
  · obtain ⟨hkinds, hcases⟩ := settle_ok hv
    refine ⟨hkinds, ?_⟩
    obtain ⟨-, hv⟩ | ⟨-, hv⟩ | ⟨-, -, hv | hv⟩ := hcases
    · cases hv
      exact .parent
    · cases hv
      exact .child
    · cases hv
      exact .parent
    · cases hv
  · exact ⟨(settle_ok hv).1, hvalues inner hinner⟩

theorem item_outcome {place : String} {p : Property} {policy : ItemPolicy} {above : Option Node}
    {key : String} {child node : Node} {stale : Totals}
    (hown : ∀ info own declared, child = .complex info own declared →
      ∀ e ∈ own, Ends rules R e.2)
    (h : item rules place p policy above key child = .ok (some node, stale)) :
    ItemOutcome rules R p above child node := by
  obtain ⟨rfl, hadded, -⟩ | ⟨parent, rfl, ⟨hnode, -⟩ | ⟨hnode, -⟩ |
    ⟨type, info, own, declared, merged, rfl, hchoice, hmerged, hnode⟩⟩ := item_ok h
  · unfold added at hadded
    split at hadded
    · cases hadded
      exact .added rfl
    · cases hadded
  · cases hnode
    exact .parent rfl
  · cases hnode
    exact .backfilled rfl
  · cases hnode
    obtain ⟨hmono, -, htype⟩ := chooseItem_combine hchoice
    exact .joined rfl rfl hmono htype (properties_fields (hown info own declared rfl) hmerged)

/-- The relation holds of every merge of the child if it holds of each step. -/
theorem ends (step : ∀ {p : Property} {parent child node : Node}, parent.kind = p.kind →
      child.kind = p.kind → Outcome rules R p parent child node → R p parent child node)
    (child : Node) : Ends rules R child := by
  -- The check and the items are dealt with once: the cases say what the values merge to.
  have close {child : Node}
      (hown : ∀ info own declared, child = .complex info own declared →
        ∀ e ∈ own, Ends rules R e.2)
      (hvalues : ∀ {place p parent node inner}, ValuesTo rules place p parent child node inner →
        Outcome rules R p parent child node) : Ends rules R child := by
    refine ⟨fun h => ?_, fun h => item_outcome hown h⟩
    obtain ⟨⟨hparent, hchild⟩, hout⟩ := property_outcome h fun _ => hvalues
    exact step hparent hchild hout
  induction child using Node.tree_induction with
  | simple info text =>
    apply close
    · rintro _ _ _ ⟨⟩
    · intro place p parent node inner hvalues
      exact mergeText_outcome hvalues.1
  | complex info own declared ih =>
    apply close
    · rintro _ _ _ ⟨⟩
      exact ih
    · intro place p parent node inner hvalues
      obtain ⟨-, rfl, -⟩ | ⟨-, rfl, -⟩ | ⟨type, merged, hchoice, hmerged, rfl⟩ := hvalues
      · exact .child
      · exact .parent
      · obtain ⟨hmono, htype⟩ := chooseComplex_combine hchoice
        exact .joined hmono htype (properties_fields ih hmerged)
  | absentSet | absentMap =>
    apply close
    · rintro _ _ _ ⟨⟩
    · intro place p parent node inner hvalues
      obtain ⟨rfl, -⟩ := hvalues
      exact .child
  | absentList | list =>
    apply close
    · rintro _ _ _ ⟨⟩
    · intro place p parent node inner hvalues
      obtain ⟨rfl, -⟩ := hvalues
      split
      · exact .parent
      · exact .child
  | set info own ih =>
    apply close
    · rintro _ _ _ ⟨⟩
    · intro place p parent node inner hvalues
      obtain ⟨above, keyed, merged, habove, -, hmerged, rfl⟩ := hvalues
      refine .set fun n hn => ?_
      have hitems {e : String × Node} (he : e ∈ above) : e.2 ∈ parent.items?.getD [] := by
        rw [← keyItems_items habove]
        exact List.mem_map_of_mem he
      rcases List.mem_append.1 hn with hn | hn
      · obtain ⟨child, hchild, key, hout⟩ := items_outcome ih hmerged n hn
        exact .inr ⟨child, hchild, _, fun a ha => hitems (Keyed.mem_of_lookup ha), hout⟩
      · obtain ⟨e, he, rfl⟩ := List.mem_map.1 hn
        exact .inl (hitems (mem_of_survivors he))
  | map info own ih =>
    apply close
    · rintro _ _ _ ⟨⟩
    · intro place p parent node inner hvalues
      obtain ⟨merged, -, -, hmerged, rfl⟩ := hvalues
      obtain ⟨hkeys, hout⟩ := entries_outcome ih hmerged
      exact .map (fun e he => mem_of_survivors he) hkeys hout

theorem Fields.names {type : Record} {inherited own merged : List (String × Node)}
    (h : Fields R type inherited own merged) : merged.map Prod.fst = own.map Prod.fst := by
  induction h with
  | nil => rfl
  | taken _ _ ih | paired _ _ _ _ ih => simp [ih]

theorem complex_outcome
    (step : ∀ {p : Property} {parent child node : Node}, parent.kind = p.kind →
      child.kind = p.kind → Outcome rules R p parent child node → R p parent child node)
    {place : String} {type : Record} {parent child node : Node} {stale : Totals}
    (h : complex rules place type parent child = .ok (node, stale)) :
    ∃ info own declared merged, child = .complex info own declared ∧
      Fields R type (parent.properties?.getD []) own merged ∧
      node = joined info declared parent merged := by
  obtain ⟨-, info, own, declared, merged, rfl, hmerged, rfl⟩ := complex_ok h
  exact ⟨info, own, declared, merged, rfl,
    properties_fields (fun e _ => ends step e.2) hmerged, rfl⟩

end

end ScopedConfig.Merge
