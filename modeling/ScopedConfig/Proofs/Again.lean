import ScopedConfig.Proofs.Collections
import ScopedConfig.Proofs.Distinct

/-!
# Merging again

A merged node that is stamped against the node above it and merged into that once more is what it
was. What one merge took from either side, the next one takes again.
-/

namespace ScopedConfig

namespace Merge

open Schema Stamp Node ScopedConfig.Except

section
variable (rules : Rules) (target : Scope.Path)

/-- The value of a property, stamped against the one above and merged into it, is what it was. -/
def Stays (p : Property) (above node : Node) : Prop :=
  ∀ owner place previous merged stale,
    property rules owner place p above
      (stamp rules.schema target (.property p) previous (some above) node) = .ok (merged, stale) →
    merged.Alike node

/-- The same for an item of a property. -/
def ItemStays (p : Property) (policy : ItemPolicy) (above node : Node) : Prop :=
  ∀ place key previous kept stale,
    item rules place p policy (some above) key
      (stamp rules.schema target (itemRole rules.schema (.property p) node) previous (some above)
        node) = .ok (kept, stale) →
    ∃ merged, kept = some merged ∧ merged.Alike node

/-- The node has the properties above, and those that the type declares stay. -/
structure Inherits (type : Record) (above node : Node) : Prop where
  names : (above.properties?.getD []).map Prod.fst ⊆ (node.properties?.getD []).map Prod.fst
  stays : ∀ e ∈ node.properties?.getD [], ∀ a p, (above.properties?.getD []).lookup e.1 = some a →
    type.find? e.1 = some p → Stays rules target p a e.2

end

variable {rules : Rules} {target : Scope.Path} {p : Property} {above : Node}

theorem Inherits.of_find? {typeName : String} {type type' : Record} {node : Node}
    (h : Inherits rules target type above node) (htype : rules.schema.find? typeName = some type)
    (htype' : rules.schema.find? typeName = some type') :
    Inherits rules target type' above node := by
  rw [htype] at htype'
  cases htype'
  exact h

/-! ## Properties -/

theorem properties_stay {own merged : List (String × Node)} {type : Record}
    (hown : ∀ e ∈ own, ∀ a p, (above.properties?.getD []).lookup e.1 = some a →
      type.find? e.1 = some p → Stays rules target p a e.2) {place : String}
    {previous : Option Node} {stale : Totals}
    (h : properties rules place type (above.properties?.getD [])
      (stampProperties rules.schema target (some type) previous (some above) own) =
        .ok (merged, stale)) : Alike.AlikeFields merged own := by
  induction own generalizing merged stale with
  | nil =>
    cases h
    exact .nil
  | cons e rest ih =>
    obtain ⟨name, child⟩ := e
    rw [List.forall_mem_cons] at hown
    obtain ⟨node, first, nodes, others, hfirst, hothers, rfl, -⟩ := properties_cons_ok h
    refine .cons ⟨rfl, ?_⟩ (ih hown.2 hothers)
    obtain ⟨a, p, ha, hp, hproperty⟩ | ⟨-, rfl, -⟩ := hfirst
    · have hrole : propertyRole (some type) name = .property p := by simp [propertyRole, hp]
      rw [hrole, Option.bind_some, property?_eq_lookup above, ha] at hproperty
      exact hown.1 a p ha hp _ _ _ _ _ hproperty
    · exact alike_stamp rules.schema target _ _ _ child

theorem joined_stays {type : Record} {info info' : Info} {own : List (String × Node)}
    {declared : List String}
    (hinherits : Inherits rules target type above (.complex info own declared))
    (hinfo : ∀ place, info'.unstamped place = info.unstamped place) {place : String}
    {previous : Option Node} {merged : List (String × Node)} {stale : Totals}
    (h : properties rules place type (above.properties?.getD [])
      (stampProperties rules.schema target (some type) previous (some above) own) =
        .ok (merged, stale)) :
    (joined info' declared above merged).Alike (.complex info own declared) := by
  have halike := properties_stay hinherits.stays h
  have hnames : (above.properties?.getD []).map Prod.fst ⊆ merged.map Prod.fst := by
    rw [halike.names]
    exact hinherits.names
  -- Nothing is missing from a node that inherits all, so nothing is added.
  rw [joined, fillFrom_of_names hnames]
  exact Alike.complex_alike hinfo halike

/-! ## Values -/

/-- Stale pairs aside, a value stays if it is the one above when it is absent, and if its merge with
the one above is what it was. -/
theorem stays_of {node : Node} (habsent : node.isAbsent = true → above.Alike node)
    (hvalues : node.isAbsent = false → node.kind = p.kind →
      ∀ place previous merged inner, ValuesTo rules place p above
        (stamp rules.schema target (.property p) previous (some above) node) merged inner →
      merged.Alike node) : Stays rules target p above node := by
  intro owner place previous merged stale h
  have halike := alike_stamp rules.schema target (.property p) previous (some above) node
  obtain ⟨⟨-, hnode⟩, hcases⟩ :=
    property_of_fresh (isStale_stamp rules target (.property p) previous above node) h
  rw [kind_stamp] at hnode
  rw [halike.isAbsent] at hcases
  obtain ⟨hthere, rfl⟩ | ⟨-, rfl⟩ | ⟨⟨hthere, -⟩, inner, hinner⟩ := hcases
  · exact habsent hthere
  · exact halike
  · exact hvalues hthere hnode place previous merged inner hinner

theorem stays_of_absent {node : Node} (habove : above.isAbsent = true)
    (hnode : node.isAbsent = false) : Stays rules target p above node := by
  intro owner place previous merged stale h
  have halike := alike_stamp rules.schema target (.property p) previous (some above) node
  obtain ⟨-, hcases⟩ :=
    property_of_fresh (isStale_stamp rules target (.property p) previous above node) h
  rw [halike.isAbsent, hnode, habove] at hcases
  obtain ⟨hthere, -⟩ | ⟨-, rfl⟩ | ⟨⟨-, hthere⟩, -⟩ := hcases
  · cases hthere
  · exact halike
  · cases hthere

theorem text_stays (hrules : Steady rules) (hp : rules.schema.HasProperty p) {info : Info}
    {text : Option String}
    (hparent : effectivePolicy p above = .useParent → above.Alike (.simple info text)) :
    Stays rules target p above (.simple info text) := by
  refine stays_of (by simp [isAbsent]) fun _ _ place previous merged inner h => ?_
  obtain ⟨htext, -⟩ := h
  cases hpolicy : effectivePolicy p above with
  | useChild =>
    rw [hpolicy] at htext
    cases htext
    exact alike_stamp rules.schema target (.property p) previous (some above) (.simple info text)
  | useParent =>
    rw [hpolicy] at htext
    cases htext
    exact hparent hpolicy
  | merge => simp [hpolicy, mergeText, Error.misuse] at htext
  | strategy name => exact absurd hpolicy (hrules.ne_strategy hp above name)

theorem list_stays {info : Info} {own : Option (List Node)}
    (habsent : own = none → above.Alike (.list info own))
    (hparent : effectivePolicy p above = .useParent → above.Alike (.list info own)) :
    Stays rules target p above (.list info own) := by
  refine stays_of (fun h => habsent ?_) fun _ _ place previous merged inner h => ?_
  · cases own with
    | none => rfl
    | some own => simp [isAbsent] at h
  · have halike :=
      alike_stamp rules.schema target (.property p) previous (some above) (.list info own)
    cases own <;> simp only [stamp] at h halike <;> obtain ⟨rfl, -⟩ := h <;> split
    all_goals first | exact hparent ‹_› | exact halike

/-- The policy that leads to the choice. -/
def Choice.policy : Choice → ValuePolicy
  | .child => .useChild
  | .parent => .useParent
  | .combine _ => .merge

theorem policy_of_choice {place : String} {parent : Node} {choice : Choice}
    (h : chooseComplex rules place p parent = .ok choice) :
    effectivePolicy p parent = choice.policy := by
  unfold chooseComplex at h
  cases hpolicy : effectivePolicy p parent with
  | useChild | useParent =>
    simp only [hpolicy, Except.ok.injEq] at h
    rw [← h]
    rfl
  | strategy name => simp [hpolicy, Error.misuse] at h
  | merge =>
    simp only [hpolicy] at h
    split at h
    · simp [Error.misuse] at h
    · obtain ⟨type, -, rfl⟩ := map_eq_ok.1 h
      rfl

theorem complex_stays {info : Info} {own : List (String × Node)} {declared : List String}
    (hparent : effectivePolicy p above = .useParent → above.Alike (.complex info own declared))
    (hmerge : p.kind = .complex → ∀ type, p.polymorphic = false →
      rules.schema.find? p.typeName = some type → effectivePolicy p above = .merge →
      Inherits rules target type above (.complex info own declared)) :
    Stays rules target p above (.complex info own declared) := by
  refine stays_of (by simp [isAbsent]) fun _ hkind place previous merged inner h => ?_
  obtain ⟨-, rfl, -⟩ | ⟨hchoice, rfl, -⟩ | ⟨type, nodes, hchoice, hnodes, rfl⟩ := h
  · exact alike_stamp rules.schema target (.property p) previous (some above)
      (.complex info own declared)
  · exact hparent (policy_of_choice hchoice)
  · obtain ⟨hmono, htype⟩ := chooseComplex_combine hchoice
    rw [recordOf_property _ hkind.symm hmono htype] at hnodes
    exact joined_stays (hmerge hkind.symm type hmono htype (policy_of_choice hchoice))
      (fun _ => rfl) hnodes

/-! ## Items and entries -/

theorem item_stays {policy : ItemPolicy} {node : Node} (hkind : p.kind = .set ∨ p.kind = .map)
    (hparent : policy = .useParent → above.Alike node)
    (hnames : policy = .useChild → node.kind = .complex →
      (above.properties?.getD []).map Prod.fst ⊆ (node.properties?.getD []).map Prod.fst)
    (hmerge : p.itemKind = .complex → ∀ type, p.polymorphic = false →
      rules.schema.find? p.typeName = some type → policy = .merge →
      Inherits rules target type above node) :
    ItemStays rules target p policy above node := by
  intro place key previous kept stale h
  have halike := alike_stamp rules.schema target (itemRole rules.schema (.property p) node) previous
    (some above) node
  obtain ⟨hpolicy, rfl⟩ | ⟨hpolicy, rfl⟩ | ⟨hpolicy, _, type, info, own, declared, merged, hstamped,
    ⟨hmono, hitem, htype⟩, hmerged, rfl⟩ := item_paired h
  · exact ⟨above, rfl, hparent hpolicy⟩
  · refine ⟨_, rfl, ?_⟩
    rw [backfill_of_names]
    · exact halike
    · rw [kind_stamp, halike.names]
      exact hnames hpolicy
  · cases node with
    | simple | list | set | map =>
      have hcomplex := congrArg Node.kind hstamped
      rw [kind_stamp] at hcomplex
      simp [Node.kind] at hcomplex
    | complex info' own' declared' =>
      rw [stamp, recordOf_item _ hkind hmono hitem htype] at hstamped
      simp only [Node.complex.injEq] at hstamped
      obtain ⟨rfl, rfl, rfl⟩ := hstamped
      exact ⟨_, rfl, joined_stays (hmerge hitem type hmono htype hpolicy) (fun _ => rfl) hmerged⟩

/-- The key is found above and the item stays, or the item was added. -/
def Paired (rules : Rules) (target : Scope.Path) (p : Property) (policy : ItemPolicy)
    (above : Option Node) (node : Node) : Prop :=
  (∃ a, above = some a ∧ ItemStays rules target p policy a node) ∨
    above = none ∧ p.policy.entryAdded = .add

theorem item_of_paired {policy : ItemPolicy} {above : Option Node} {node : Node}
    (hpaired : Paired rules target p policy above node) {place key : String}
    {previous kept : Option Node} {stale : Totals}
    (h : item rules place p policy above key
      (stamp rules.schema target (itemRole rules.schema (.property p) node) previous above node) =
        .ok (kept, stale)) : ∃ merged, kept = some merged ∧ merged.Alike node := by
  obtain ⟨a, rfl, hstays⟩ | ⟨rfl, hadd⟩ := hpaired
  · exact hstays place key previous kept stale h
  · rw [item_alone h, added, hadd]
    exact ⟨_, rfl, alike_stamp rules.schema target _ _ _ node⟩

theorem survivors_of_subset {above : List (String × Node)} {keys : List String}
    (h : p.policy.entryRemoved = .add → above.map Prod.fst ⊆ keys) :
    survivors p above keys = [] := by
  refine List.eq_nil_iff_forall_not_mem.2 fun e he => ?_
  obtain ⟨hremoved, hnew, habove⟩ := mem_survivors he
  exact hnew (h hremoved (Keyed.lookup_isSome_iff.1 (by rw [habove]; rfl)))

theorem items_stay {own : List Node} {policy : ItemPolicy}
    {aboveItems previous : Option (List Node)}
    (hown : ∀ n ∈ own, Paired rules target p policy
      (withKey rules.schema (.property p) aboveItems (keyOf rules.schema (.property p) n)) n)
    (hnodup : (own.map (keyOf rules.schema (.property p))).Nodup) {seen : List String}
    (hseen : ∀ n ∈ own, keyOf rules.schema (.property p) n ∉ seen) {place : String}
    {above keyed : List (String × Node)} {nodes : List Node} {stale : Totals}
    (habove : keyItems rules place p (aboveItems.getD []) = .ok above)
    (hkeyed : keyItems rules place p
      (stampSet rules.schema target (.property p) previous aboveItems own) = .ok keyed)
    (h : items rules place p policy above seen (keyed.map Prod.fst)
      (stampSet rules.schema target (.property p) previous aboveItems own) = .ok (nodes, stale)) :
    List.Forall₂ Node.Alike nodes own := by
  -- No key comes twice, so no item is left out as met before.
  induction own generalizing keyed seen nodes stale with
  | nil =>
    cases h
    exact .nil
  | cons child rest ih =>
    rw [List.forall_mem_cons] at hown hseen
    rw [List.map_cons, List.nodup_cons] at hnodup
    obtain ⟨key, keyedRest, hkey, hrest, rfl⟩ := keyItems_cons hkeyed
    have hchild : keyOf rules.schema (.property p) child = key := keyOf_eq (itemKey_stamp.1 hkey)
    rw [hchild] at hown hseen hnodup
    obtain ⟨hmet, -⟩ | ⟨-, kept, first, others, more, hitem, hmore, rfl, -⟩ := items_cons_ok h
    · exact absurd (List.contains_iff_mem.1 hmet) hseen.1
    · have hpair : above.lookup key = withKey rules.schema (.property p) aboveItems key := by
        rw [lookup_keyItems habove, withKey]
      rw [hpair, hchild] at hitem
      obtain ⟨merged, rfl, halike⟩ := item_of_paired hown.1 hitem
      have hlater : ∀ n ∈ rest, keyOf rules.schema (.property p) n ∉ key :: seen := by
        intro n hn
        rw [List.mem_cons, not_or]
        exact ⟨fun hsame => hnodup.1 (List.mem_map.2 ⟨n, hn, hsame⟩), hseen.2 n hn⟩
      exact .cons halike (ih hown.2 hnodup.2 hlater hrest hmore)

/-- What a set needs to stay: each key once, each item with the one above that has its key, and no
key above that is missing. -/
structure Settled (rules : Rules) (target : Scope.Path) (p : Property) (above : Node)
    (own : List Node) : Prop where
  pairs : ∀ n ∈ own, Paired rules target p (effectiveItemPolicy p above)
    (withKey rules.schema (.property p) above.items? (keyOf rules.schema (.property p) n)) n
  nodup : (own.map (keyOf rules.schema (.property p))).Nodup
  kept : p.policy.entryRemoved = .add →
    (above.items?.getD []).map (keyOf rules.schema (.property p)) ⊆
      own.map (keyOf rules.schema (.property p))

theorem set_stays {info : Info} {own : List Node}
    (hsettled : p.kind = .set → rules.schema.Keyable p (above.items?.getD []) →
      rules.schema.Keyable p own → Settled rules target p above own) :
    Stays rules target p above (.set info (some own)) := by
  refine stays_of (by simp [isAbsent]) fun _ hkind place previous merged inner h => ?_
  obtain ⟨aboveItems, keyed, nodes, habove, hkeyed, hnodes, rfl⟩ := h
  obtain ⟨hkeyableAbove, hkeysAbove⟩ :=
    keyItems_keyOf (List.forall₂_same.2 fun n _ => Alike.refl n) habove
  obtain ⟨hkeyable, hkeys⟩ :=
    keyItems_keyOf (stampSet_alike rules.schema target (.property p) _ _ own) hkeyed
  obtain ⟨hpairs, hnodup, hkept⟩ := hsettled hkind.symm hkeyableAbove hkeyable
  have hnone : survivors p aboveItems (keyed.map Prod.fst) = [] := by
    refine survivors_of_subset fun hremoved => ?_
    rw [hkeysAbove, hkeys]
    exact hkept hremoved
  rw [hnone, List.map_nil, List.append_nil]
  exact Alike.set_alike (fun _ => rfl) (items_stay hpairs hnodup (by simp) habove hkeyed hnodes)

theorem entries_stay {own : List (String × Node)} {policy : ItemPolicy} {previous : Option Node}
    (hown : ∀ e ∈ own, Paired rules target p policy ((above.entries?.getD []).lookup e.1) e.2)
    {place : String} {merged : List (String × Node)} {stale : Totals}
    (h : entries rules place p policy (above.entries?.getD [])
      (stampEntries rules.schema target (.property p) previous (some above) own) =
        .ok (merged, stale)) : Alike.AlikeFields merged own := by
  induction own generalizing merged stale with
  | nil =>
    cases h
    exact .nil
  | cons e rest ih =>
    obtain ⟨key, child⟩ := e
    rw [List.forall_mem_cons] at hown
    obtain ⟨kept, first, others, more, hitem, hmore, rfl, -⟩ := entries_cons_ok h
    have hpair : ((some above).bind fun a => a.entries?.bind fun es => es.lookup key) =
        (above.entries?.getD []).lookup key := by
      cases h : above.entries? <;> simp [h]
    rw [hpair] at hitem
    obtain ⟨node, rfl, halike⟩ := item_of_paired hown.1 hitem
    exact .cons ⟨rfl, halike⟩ (ih hown.2 hmore)

theorem map_stays {info : Info} {own : List (String × Node)}
    (hpairs : p.kind = .map → ∀ e ∈ own, Paired rules target p (effectiveItemPolicy p above)
      ((above.entries?.getD []).lookup e.1) e.2)
    (hkept : p.policy.entryRemoved = .add →
      (above.entries?.getD []).map Prod.fst ⊆ own.map Prod.fst) :
    Stays rules target p above (.map info (some own)) := by
  refine stays_of (by simp [isAbsent]) fun _ hkind place previous merged inner h => ?_
  obtain ⟨nodes, -, -, hnodes, rfl⟩ := h
  have halike := entries_stay (hpairs hkind.symm) hnodes
  have hnone : survivors p (above.entries?.getD []) ((stampEntries rules.schema target (.property p)
      previous (some above) own).map Prod.fst) = [] := by
    refine survivors_of_subset fun hremoved => ?_
    rw [keys_stampEntries]
    exact hkept hremoved
  rw [hnone]
  exact Alike.map_alike (fun _ => rfl) halike

end Merge

end ScopedConfig
