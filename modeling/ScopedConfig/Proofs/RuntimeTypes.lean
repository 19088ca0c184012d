import ScopedConfig.Proofs.Places
import ScopedConfig.Proofs.Provenance

/-!
# Runtime types

A polymorphic value has a type of its own at every level. What a merged node has at a place is
compared with what the levels have there: a value or an item is unmixed if it is a level's as a
whole, or an item of a level that is filled in with what levels have at its place.
-/

namespace ScopedConfig.Merge

open Schema Node Stamp ScopedConfig.Except

/-! ## Values that mix no types -/

section
variable (rules : Rules) (all : List (Option Node))

/-- The child's items take over what they lack: the property says so, or some level has the
collection as a default. -/
def Backfills (p : Property) (place : List Spot) : Prop :=
  p.policy.item = .useChild ∨ ∃ n, Given rules.schema all place n ∧ defaultsOnly n = true

/-- The item is one that a level has there, with the metadata and all properties of that. Every
property is one of an item that some level has there. -/
structure Filled (place : List Spot) (item : Node) : Prop where
  base : ∃ n, Given rules.schema all place n ∧ n.info = item.info ∧
    ∀ name value, n.property? name = some value → item.property? name = some value
  properties : ∀ name value, item.property? name = some value →
    ∃ n, Given rules.schema all place n ∧ n.property? name = some value

/-- The node has the metadata of one that a level has at its place. If it is a polymorphic value it
is such a node, and if it holds polymorphic items they are such nodes or filled in. -/
structure Unmixed (x : Seat) : Prop where
  origin : ∃ n, Given rules.schema all x.place n ∧ n.info = x.node.info
  value : ∀ p, x.role = .property p → p.kind = .complex → p.polymorphic = true →
    Given rules.schema all x.place x.node
  items : ∀ p spot item, x.role = .property p → p.kind = .set ∨ p.kind = .map →
    p.itemKind = .complex → p.polymorphic = true → Open rules all x spot →
    x.node.Holds rules.schema spot item → Given rules.schema all (spot :: x.place) item ∨
      Backfills rules all p x.place ∧ Filled rules all (spot :: x.place) item

/-- The value has only properties that a value of its type has at this place at some level. -/
def HasOwn (place : List Spot) (v : Node) : Prop :=
  ∀ name value, v.property? name = some value →
    ∃ n, Given rules.schema all place n ∧ n.typeName = v.typeName ∧ (n.property? name).isSome = true

/-- If the node is a polymorphic value it has only properties of its type, and polymorphic items at
its open spots have only properties of theirs. -/
structure TypesApart (opened : Seat → Spot → Prop) (x : Seat) : Prop where
  value : ∀ p, x.role = .property p → p.kind = .complex → p.polymorphic = true →
    HasOwn rules all x.place x.node
  items : ∀ p spot item, x.role = .property p → p.kind = .set ∨ p.kind = .map →
    p.itemKind = .complex → p.polymorphic = true → opened x spot →
    x.node.Holds rules.schema spot item → HasOwn rules all (spot :: x.place) item

/-- No node that is found in this one mixes types. -/
def Sound (x : Seat) : Prop := ∀ y, Reaches rules.schema (Open rules all) x y → Unmixed rules all y

end

variable {rules : Rules} {all : List (Option Node)} {p : Property} {place : List Spot}

theorem unmixed_of_given {x : Seat} (h : Given rules.schema all x.place x.node) :
    Unmixed rules all x where
  origin := ⟨x.node, h, rfl⟩
  value _ _ _ _ := h
  items _ _ _ _ _ _ _ _ hitem := .inl (h.holds hitem)

theorem sound_of_given {x : Seat} (h : Given rules.schema all x.place x.node) :
    Sound rules all x := fun _ hreach => unmixed_of_given (hreach.given h)

theorem Sound.unmixed {x : Seat} (h : Sound rules all x) : Unmixed rules all x := h x .refl

theorem Sound.below {x y : Seat} (h : Sound rules all x)
    (hxy : Below rules.schema (Open rules all) x y) : Sound rules all y :=
  fun z hreach => h z (hreach.head hxy)

theorem sound_of_below {x : Seat} (hx : Unmixed rules all x)
    (h : ∀ spot child, Open rules all x spot → x.node.Holds rules.schema spot child →
      Sound rules all ⟨roleOf rules.schema x.role x.node spot child, spot :: x.place, child⟩) :
    Sound rules all x := by
  intro y hreach
  rcases hreach.cases_head with rfl | ⟨z, ⟨hopen, hchild⟩, hrest⟩
  · exact hx
  · exact h _ _ hopen hchild y hrest

/-! ## Roles -/

theorem itemRole_ne (s : Schema) (role : Role) (item : Node) (p : Property) :
    itemRole s role item ≠ .property p := by
  unfold itemRole
  split
  · split <;> simp
  · simp

theorem unmixed_of_ne {role : Role} (hrole : ∀ p, role ≠ .property p) {n : Node}
    (horigin : ∃ v, Given rules.schema all place v ∧ v.info = n.info) :
    Unmixed rules all ⟨role, place, n⟩ where
  origin := horigin
  value q h := absurd h (hrole q)
  items q _ _ h := absurd h (hrole q)

theorem unmixed_of_mono {n : Node}
    (horigin : ∃ v, Given rules.schema all place v ∧ v.info = n.info)
    (hmono : p.polymorphic = false) : Unmixed rules all ⟨.property p, place, n⟩ where
  origin := horigin
  value := by
    rintro q ⟨⟩ - hpoly
    simp [hmono] at hpoly
  items := by
    rintro q spot item ⟨⟩ - - hpoly
    simp [hmono] at hpoly

theorem roleOf_item {s : Schema} {role : Role} {n child : Node} {spot : Spot}
    (hkind : n.kind = .set ∨ n.kind = .map) (h : n.Holds s spot child) :
    roleOf s role n spot child = itemRole s role child := by
  cases h with
  | property hproperty =>
    obtain ⟨own, hown, -⟩ := Option.bind_eq_some_iff.1 hproperty
    cases n with
    | complex => simp [Node.kind] at hkind
    | simple | list | set | map => cases hown
  | item | member | entry => rfl

theorem itemRole_mono (s : Schema) (hmono : p.polymorphic = false) (a b : Node) :
    itemRole s (.property p) a = itemRole s (.property p) b := by
  simp [itemRole, Schema.recordFor, hmono]

theorem recordOf_itemRole (s : Schema) (role : Role) (item a b : Node) :
    recordOf s (itemRole s role item) a = recordOf s (itemRole s role item) b := by
  unfold itemRole
  split
  · split <;> rfl
  · rfl

/-! ## Properties that are filled in -/

theorem filled_in_sound {role : Role} {parent : Node} {info : Info} {declared : List String}
    {own : List (String × Node)}
    (hnode : Unmixed rules all ⟨role, place, joined info declared parent own⟩)
    (hordered : parent.isOrdered = true)
    (hparent : ∀ name value, parent.property? name = some value →
      Sound rules all ⟨propertyRole (recordOf rules.schema role (joined info declared parent own))
        name, .property name :: place, value⟩)
    (hown : ∀ e ∈ own,
      Sound rules all ⟨propertyRole (recordOf rules.schema role (joined info declared parent own))
        e.1, .property e.1 :: place, e.2⟩) :
    Sound rules all ⟨role, place, joined info declared parent own⟩ := by
  refine sound_of_below hnode fun spot child _ hchild => ?_
  obtain ⟨name, rfl, hvalue⟩ := hchild.of_complex rfl
  rcases property?_of_joined hordered hvalue with hvalue | hvalue
  · exact hown _ (Keyed.mem_of_lookup hvalue)
  · exact hparent name child hvalue

theorem filled_sound {role : Role} {item other : Node} (hkind : item.kind = .complex)
    (h : Filled rules all place item) :
    Sound rules all ⟨itemRole rules.schema role other, place, item⟩ := by
  obtain ⟨n, hn, hinfo, -⟩ := h.base
  refine sound_of_below (unmixed_of_ne (itemRole_ne _ _ _) ⟨n, hn, hinfo⟩)
    fun spot child _ hchild => ?_
  cases hchild with
  | property hvalue =>
    obtain ⟨m, hm, hproperty⟩ := h.properties _ _ hvalue
    exact sound_of_given (hm.holds (.property hproperty))
  | item | member | entry => cases hkind

end ScopedConfig.Merge
