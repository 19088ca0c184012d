import Mathlib.Logic.Relation
import ScopedConfig.Proofs.Collections

/-!
# Places

A place leads from a level down to one of its nodes: through properties, items of lists, entries,
and items of sets, which are found by their keys. What stands in a merged node is compared with what
the levels have at the same place.
-/

namespace ScopedConfig

open Schema (Property)

/-- One step down. An item of a set has a key under the property that the set belongs to. -/
inductive Spot where
  | property (name : String)
  | item (index : Nat)
  | member (p : Property) (key : String)
  | entry (key : String)

namespace Node

/-- What a node holds at a spot. Several items of a set may have one key. -/
inductive Holds (s : Schema) : Node → Spot → Node → Prop where
  | property {n child : Node} {name : String} (h : n.property? name = some child) :
    Holds s n (.property name) child
  | item {info : Info} {own : List Node} {i : Nat} {child : Node} (h : own[i]? = some child) :
    Holds s (.list info (some own)) (.item i) child
  | member {info : Info} {own : List Node} {p : Property} {key : String} {child : Node}
    (h : child ∈ own) (hkey : s.itemKey p p.name child = .ok key) :
    Holds s (.set info (some own)) (.member p key) child
  | entry {info : Info} {own : List (String × Node)} {key : String} {child : Node}
    (h : own.lookup key = some child) :
    Holds s (.map info (some own)) (.entry key) child

variable {s : Schema}

theorem Holds.of_complex {n child : Node} {spot : Spot} (hkind : n.kind = .complex)
    (h : n.Holds s spot child) : ∃ name, spot = .property name ∧ n.property? name = some child := by
  cases h with
  | property h => exact ⟨_, rfl, h⟩
  | item | member | entry => cases hkind

theorem Holds.ordered {n child : Node} {spot : Spot} (h : n.Holds s spot child)
    (hn : n.isOrdered = true) : child.isOrdered = true := by
  cases h with
  | property h =>
    obtain ⟨own, hown, h⟩ := Option.bind_eq_some_iff.1 h
    exact properties_ordered hn (_, child) (by rw [hown]; exact Keyed.mem_of_lookup h)
  | item h => exact items_ordered hn child (List.mem_of_getElem? h)
  | member h => exact items_ordered hn child h
  | entry h => exact entries_ordered hn (_, child) (Keyed.mem_of_lookup h)

/-- All that a node holds at a spot. -/
def held (s : Schema) : Node → Spot → List Node
  | n, .property name => (n.property? name).toList
  | .list _ (some own), .item i => own[i]?.toList
  | .set _ (some own), .member p key =>
    own.filter fun child => (Merge.identityOf? s p child).bind (·.key? child) == some key
  | .map _ (some own), .entry key => (own.lookup key).toList
  | _, _ => []

theorem holds_iff {n child : Node} {spot : Spot} :
    n.Holds s spot child ↔ child ∈ n.held s spot := by
  constructor
  · intro h
    cases h with
    | property h => simp [held, h]
    | item h => simp [held, h]
    | member h hkey => simp [held, h, Merge.itemKey_eq_ok.1 hkey]
    | entry h => simp [held, h]
  · intro h
    unfold held at h
    split at h
    · exact .property (by simpa using h)
    · exact .item (by simpa using h)
    · obtain ⟨hmem, hkey⟩ := List.mem_filter.1 h
      exact .member hmem (Merge.itemKey_eq_ok.2 (by simpa using hkey))
    · exact .entry (by simpa using h)
    · cases h

end Node

namespace Merge

open Schema Stamp Node

/-! ## What the levels have -/

/-- The node stands where the place leads from the root. The last step comes first. -/
inductive Stands (s : Schema) (root : Node) : List Spot → Node → Prop where
  | root : Stands s root [] root
  | held {place : List Spot} {spot : Spot} {n child : Node} (h : Stands s root place n)
    (hchild : n.Holds s spot child) : Stands s root (spot :: place) child

/-- Some level has the node at the place. -/
def Given (s : Schema) (all : List (Option Node)) (place : List Spot) (n : Node) : Prop :=
  ∃ level, some level ∈ all ∧ Stands s level place n

theorem Given.holds {s : Schema} {all : List (Option Node)} {place : List Spot} {spot : Spot}
    {n child : Node} (h : Given s all place n) (hchild : n.Holds s spot child) :
    Given s all (spot :: place) child := by
  obtain ⟨level, hlevel, hstands⟩ := h
  exact ⟨level, hlevel, hstands.held hchild⟩

/-- What a level has at the place. -/
def standing (s : Schema) (root : Node) : List Spot → List Node
  | [] => [root]
  | spot :: place => (standing s root place).flatMap fun n => n.held s spot

theorem stands_iff {s : Schema} {root n : Node} {place : List Spot} :
    Stands s root place n ↔ n ∈ standing s root place := by
  constructor
  · intro h
    induction h with
    | root => exact List.mem_singleton_self root
    | held _ hchild ih => exact List.mem_flatMap.2 ⟨_, ih, holds_iff.1 hchild⟩
  · intro h
    induction place generalizing n with
    | nil =>
      obtain rfl := List.mem_singleton.1 h
      exact .root
    | cons spot place ih =>
      obtain ⟨m, hm, hchild⟩ := List.mem_flatMap.1 h
      exact .held (ih hm) (holds_iff.2 hchild)

/-- What the levels have at the place. -/
def givenAt (s : Schema) (all : List (Option Node)) (place : List Spot) : List Node :=
  (all.filterMap id).flatMap fun level => standing s level place

theorem given_iff {s : Schema} {all : List (Option Node)} {place : List Spot} {n : Node} :
    Given s all place n ↔ n ∈ givenAt s all place := by
  simp [Given, givenAt, stands_iff]

/-! ## What stands in a merged node -/

/-- A node, its place, and what the schema tells about it. -/
structure Seat where
  role : Role
  place : List Spot
  node : Node

/-- What the schema tells about a node that is held at the spot. -/
def roleOf (s : Schema) (role : Role) (n : Node) (spot : Spot) (child : Node) : Role :=
  match spot with
  | .property name => propertyRole (recordOf s role n) name
  | .item _ | .member .. | .entry _ => itemRole s role child

/-- The second node is held by the first, at a spot that is open. -/
inductive Below (s : Schema) (opened : Seat → Spot → Prop) : Seat → Seat → Prop where
  | mk {x : Seat} {spot : Spot} {child : Node} (hopen : opened x spot)
    (hchild : x.node.Holds s spot child) :
    Below s opened x ⟨roleOf s x.role x.node spot child, spot :: x.place, child⟩

/-- The second node is the first or stands somewhere below it. -/
abbrev Reaches (s : Schema) (opened : Seat → Spot → Prop) : Seat → Seat → Prop :=
  Relation.ReflTransGen (Below s opened)

/-- An item of a set is found by the key that it has in this set. -/
def Proper (x : Seat) (spot : Spot) : Prop := ∀ p key, spot = .member p key → x.role = .property p

section
variable (rules : Rules) (all : List (Option Node))

/-- The items of the set at the place keep their keys: no strategy changes an identity that both
sides agree on, and of the given items with one key, either all or none are told apart by their
whole content. -/
structure KeepsKeys (p : Property) (place : List Spot) : Prop where
  combined : p.policy.item = .merge → ∀ {type : Record} {identity name : String} {q : Property}
    {combine : Strategy}, rules.schema.find? p.typeName = some type →
    type.identity = some identity → type.find? identity = some q →
    q.policy.value = .strategy name → rules.strategies.find? name = some combine →
    ∀ text, combine text text = text
  alike : ∀ {key : String} {a b : Node}, Given rules.schema all (.member p key :: place) a →
    Given rules.schema all (.member p key :: place) b →
    identityOf? rules.schema p a = some .content → identityOf? rules.schema p b = some .content

/-- A merged node is entered at proper spots, and an item of a set only if keys are kept there. -/
def Open (x : Seat) (spot : Spot) : Prop :=
  ∀ p key, spot = .member p key → x.role = .property p ∧ KeepsKeys rules all p x.place

end

variable {rules : Rules} {all : List (Option Node)}

theorem Reaches.held {s : Schema} {opened : Seat → Spot → Prop} {x y : Seat} {child : Node}
    (h : Reaches s opened x y) (spot : Spot) (hopen : opened y spot)
    (hchild : y.node.Holds s spot child) :
    Reaches s opened x ⟨roleOf s y.role y.node spot child, spot :: y.place, child⟩ :=
  h.tail ⟨hopen, hchild⟩

theorem open_property (x : Seat) (name : String) : Open rules all x (.property name) := by
  rintro _ _ ⟨⟩

theorem open_entry (x : Seat) (key : String) : Open rules all x (.entry key) := by
  rintro _ _ ⟨⟩

theorem Reaches.given {s : Schema} {opened : Seat → Spot → Prop} {x y : Seat}
    (h : Reaches s opened x y) (hx : Given s all x.place x.node) : Given s all y.place y.node := by
  induction h with
  | refl => exact hx
  | tail _ hstep ih =>
    obtain ⟨-, hchild⟩ := hstep
    exact ih.holds hchild

/-! ## Kept keys -/

variable {p : Property} {place : List Spot}

theorem backfill_key (hkeys : KeepsKeys rules all p place) {above child : Node} {key label : String}
    (hkind : child.kind = p.itemKind.kind)
    (habove : rules.schema.itemKey p label above = .ok key)
    (hchild : rules.schema.itemKey p label child = .ok key)
    (horigin : ∃ v, Given rules.schema all (.member p key :: place) v ∧ v.info = above.info)
    (hgiven : Given rules.schema all (.member p key :: place) child) :
    rules.schema.itemKey p label (backfill above child) = .ok key := by
  obtain hkey | ⟨-, name, value, hidentity, -⟩ := itemKey_backfill hkind habove hchild
  · exact hkey
  · -- The item above is told apart by a property, so the child's is not by its content.
    obtain ⟨v, hv, hinfo⟩ := horigin
    have hsame : identityOf? rules.schema p v = identityOf? rules.schema p above := by
      simp [identityOf?, Node.typeName, hinfo]
    cases hown : identityOf? rules.schema p child with
    | none => simp [itemKey_eq_ok, hown] at hchild
    | some identity =>
      cases identity with
      | content =>
        have hcontent := hkeys.alike hgiven hv hown
        rw [hsame, hidentity] at hcontent
        cases hcontent
      | property other => exact itemKey_backfill_property hown hchild

theorem item_key (hvalid : rules.schema.validate rules.strategies = .ok ())
    (hkeys : KeepsKeys rules all p place) {parent child n : Node} {above : Option Node}
    {key label : String} {stale : Totals} (hkind : child.kind = p.itemKind.kind)
    (habove : ∀ a, above = some a → rules.schema.itemKey p label a = .ok key ∧
      ∃ v, Given rules.schema all (.member p key :: place) v ∧ v.info = a.info)
    (hchild : rules.schema.itemKey p label child = .ok key)
    (hgiven : Given rules.schema all (.member p key :: place) child)
    (h : item rules label p (effectiveItemPolicy p parent) above key child = .ok (some n, stale)) :
    rules.schema.itemKey p label n = .ok key := by
  cases above with
  | none =>
    rw [(item_added h).2]
    exact hchild
  | some a =>
    obtain ⟨hkey, horigin⟩ := habove a rfl
    obtain ⟨-, hn⟩ | ⟨-, hn⟩ | ⟨hmerge, _, type, info, own, declared, merged, rfl,
      ⟨hmono, hitem, htype⟩, hmerged, hn⟩ := item_paired h <;> cases hn
    · exact hkey
    · exact backfill_key hkeys hkind hkey hchild horigin hgiven
    · have hpolicy := effectiveItemPolicy_merge hmerge
      exact joined_key hvalid hmono hitem htype (hkeys.combined hpolicy htype) hkey hchild hmerged

/-- A set of one type keeps its keys if no strategy makes the identity of that type. -/
theorem keepsKeys_of_mono (hmono : p.polymorphic = false)
    (hunnamed : ∀ {type : Record} {identity : String} {q : Property},
      rules.schema.find? p.typeName = some type → type.identity = some identity →
      type.find? identity = some q → q.policy.value.isNamed = false) :
    KeepsKeys rules all p place where
  combined _ type identity name q combine htype hidentity hq hvalue := by
    have hnamed := hunnamed htype hidentity hq
    simp [hvalue, ValuePolicy.isNamed] at hnamed
  alike _ _ hcontent := by
    unfold identityOf? at hcontent ⊢
    split at hcontent
    · rfl
    · rwa [if_neg (by simp [hmono])] at hcontent ⊢

end Merge

end ScopedConfig
