import ScopedConfig.Proofs.Order
import ScopedConfig.Proofs.Run
import ScopedConfig.Proofs.RuntimeTypes

/-!
# Merges keep runtime types apart

A polymorphic value is taken from one level as a whole, at every depth of a merged node. A
polymorphic item is taken as a whole too, unless items take over what they lack; then it is the item
of one level, and the rest comes from items that levels have at the same place.
-/

namespace ScopedConfig.Merge

open Schema Node Stamp ScopedConfig.Except

variable {rules : Rules} {all : List (Option Node)} {p : Property} {place : List Spot}

/-! ## Merges -/

theorem defaultsOnly_of_info {a b : Node} (h : a.info = b.info) :
    defaultsOnly a = defaultsOnly b := by
  simp [defaultsOnly, definedAt, h]

theorem backfills_of_policy {parent : Node} (hparent : Sound rules all ⟨.property p, place, parent⟩)
    (h : effectiveItemPolicy p parent = .useChild) : Backfills rules all p place := by
  unfold effectiveItemPolicy at h
  split at h
  · obtain ⟨n, hn, hinfo⟩ := hparent.unmixed.origin
    exact .inr ⟨n, hn, by rwa [defaultsOnly_of_info hinfo]⟩
  · exact .inl h

section
variable (rules all)

/-- A collection has an item at the spot, and a level has another one there. -/
structure PairedAt (p : Property) (place : List Spot) (spot : Spot) (parent above child : Node) :
    Prop where
  kind : p.kind = .set ∨ p.kind = .map
  parentKind : parent.kind = p.kind
  opens : Open rules all ⟨.property p, place, parent⟩ spot
  holds : parent.Holds rules.schema spot above
  aboveKind : above.kind = p.itemKind.kind
  childKind : child.kind = p.itemKind.kind
  given : Given rules.schema all (spot :: place) child

/-- What stands at the spot of a collection mixes no types. -/
structure ItemSound (p : Property) (place : List Spot) (spot : Spot) (item : Node) : Prop where
  sound : Sound rules all ⟨itemRole rules.schema (.property p) item, spot :: place, item⟩
  items : p.itemKind = .complex → p.polymorphic = true →
    Given rules.schema all (spot :: place) item ∨
      Backfills rules all p place ∧ Filled rules all (spot :: place) item

/-- What becomes of a node that a level has is sound if what it is merged with is. -/
structure KeepsSound (child : Node) : Prop where
  property : ∀ {owner label : String} {p : Property} {parent node : Node} {stale : Totals}
    {place : List Spot}, Sound rules all ⟨.property p, place, parent⟩ → parent.isOrdered = true →
    child.isOrdered = true → Given rules.schema all place child →
    property rules owner label p parent child = .ok (node, stale) →
    Sound rules all ⟨.property p, place, node⟩
  item : ∀ {label key : String} {p : Property} {parent above node : Node} {stale : Totals}
    {place : List Spot} {spot : Spot}, Sound rules all ⟨.property p, place, parent⟩ →
    parent.isOrdered = true → child.isOrdered = true →
    PairedAt rules all p place spot parent above child →
    item rules label p (effectiveItemPolicy p parent) (some above) key child =
      .ok (some node, stale) → ItemSound rules all p place spot node

end

theorem itemSound_of_given {spot : Spot} {item : Node}
    (h : Given rules.schema all (spot :: place) item) : ItemSound rules all p place spot item :=
  ⟨sound_of_given h, fun _ _ => .inl h⟩

theorem Sound.item {parent item : Node} {spot : Spot}
    (hparent : Sound rules all ⟨.property p, place, parent⟩) (hkind : p.kind = .set ∨ p.kind = .map)
    (hparentKind : parent.kind = p.kind) (hopen : Open rules all ⟨.property p, place, parent⟩ spot)
    (hitem : parent.Holds rules.schema spot item) : ItemSound rules all p place spot item where
  sound := by
    have hstep := hparent.below ⟨hopen, hitem⟩
    rwa [roleOf_item (hparentKind ▸ hkind) hitem] at hstep
  items hcomplex hpoly := hparent.unmixed.items p spot item rfl hkind hcomplex hpoly hopen hitem

theorem PairedAt.above_sound {spot : Spot} {parent above child : Node}
    (h : PairedAt rules all p place spot parent above child)
    (hparent : Sound rules all ⟨.property p, place, parent⟩) :
    ItemSound rules all p place spot above :=
  hparent.item h.kind h.parentKind h.opens h.holds

theorem joined_sound {role : Role} {type : Record}
    (hrole : ∀ n, recordOf rules.schema role n = some type) {parent : Node} {info : Info}
    {own merged : List (String × Node)} {declared : List String} {label : String} {stale : Totals}
    (hnode : Unmixed rules all ⟨role, place, joined info declared parent merged⟩)
    (hown : ∀ e ∈ own, KeepsSound rules all e.2)
    (hparent : Sound rules all ⟨role, place, parent⟩) (hordered : parent.isOrdered = true)
    (hordered' : (Node.complex info own declared).isOrdered = true)
    (hchild : Given rules.schema all place (.complex info own declared))
    (h : properties rules label type (parent.properties?.getD []) own = .ok (merged, stale)) :
    Sound rules all ⟨role, place, joined info declared parent merged⟩ := by
  have hbelow {name : String} {value : Node} (hvalue : parent.property? name = some value) :
      Sound rules all ⟨propertyRole (some type) name, .property name :: place, value⟩ := by
    have hstep := hparent.below ⟨open_property _ name, .property hvalue⟩
    rwa [roleOf, hrole] at hstep
  refine filled_in_sound hnode hordered (fun name value hvalue => ?_) fun e he => ?_
  · rw [hrole]
    exact hbelow hvalue
  · rw [hrole]
    obtain ⟨c, hc, hmerged⟩ := mem_properties h e he
    obtain ⟨hsorted, hall⟩ := complex_ordered_iff.1 hordered'
    have hgiven : Given rules.schema all (.property e.1 :: place) c :=
      hchild.holds (.property (Keyed.lookup_of_mem hsorted hc))
    obtain ⟨-, hsame⟩ | ⟨above, q, first, habove, hfind, hproperty⟩ := hmerged
    · rw [hsame]
      exact sound_of_given hgiven
    · have habove' : parent.property? e.1 = some above := by rw [property?_eq_lookup, habove]
      have hrole' : propertyRole (some type) e.1 = .property q := by simp [propertyRole, hfind]
      have hsound := hbelow habove'
      rw [hrole'] at hsound ⊢
      have hholds : parent.Holds rules.schema (.property e.1) above := .property habove'
      exact (hown _ hc).property hsound (hholds.ordered hordered) (hall _ hc) hgiven hproperty

theorem filled_of_backfill {above child : Node} (hordered : above.isOrdered = true)
    (hgiven : Given rules.schema all place child)
    (habove : Given rules.schema all place above ∨ Filled rules all place above) :
    Filled rules all place (backfill above child) where
  base := ⟨child, hgiven, (info_backfill above child).symm, fun _ _ => property?_backfill above⟩
  properties name value hvalue := by
    obtain hchild | hvalue := property?_of_backfill hordered hvalue
    · exact ⟨child, hgiven, hchild⟩
    · obtain habove | habove := habove
      · exact ⟨above, habove, hvalue⟩
      · exact habove.properties name value hvalue

theorem backfill_sound {parent above child : Node} {spot : Spot}
    (hparent : Sound rules all ⟨.property p, place, parent⟩) (hordered : parent.isOrdered = true)
    (h : PairedAt rules all p place spot parent above child)
    (hpolicy : effectiveItemPolicy p parent = .useChild) :
    ItemSound rules all p place spot (backfill above child) := by
  by_cases hcomplex : child.kind = .complex
  case neg =>
    rw [backfill_of_kind hcomplex]
    exact itemSound_of_given h.given
  have habove := h.above_sound hparent
  have haboveOrdered := h.holds.ordered hordered
  have hkind : (backfill above child).kind = .complex := by rw [kind_backfill, hcomplex]
  have hitem : p.itemKind = .complex := by
    have hchild := h.childKind
    cases hp : p.itemKind with
    | complex => rfl
    | simple => simp [hcomplex, hp, ItemKind.kind] at hchild
  cases hpoly : p.polymorphic with
  | true =>
    have hfilled := filled_of_backfill haboveOrdered h.given
      ((habove.items hitem hpoly).imp_right And.right)
    exact ⟨filled_sound hkind hfilled,
      fun _ _ => .inr ⟨backfills_of_policy hparent hpolicy, hfilled⟩⟩
  | false =>
    refine ⟨?_, fun _ hp => by simp [hpoly] at hp⟩
    refine sound_of_below (unmixed_of_ne (itemRole_ne _ _ _)
      ⟨child, h.given, (info_backfill above child).symm⟩) fun _ value _ hholds => ?_
    obtain ⟨name, rfl, hproperty⟩ := hholds.of_complex hkind
    rcases property?_of_backfill haboveOrdered hproperty with hvalue | hvalue
    · exact sound_of_given (h.given.holds (.property hvalue))
    · have hstep := habove.sound.below ⟨open_property _ name, .property hvalue⟩
      rwa [roleOf, itemRole_mono _ hpoly _ (backfill above child),
        recordOf_itemRole _ _ _ _ (backfill above child)] at hstep

theorem item_sound {child : Node} (hown : ∀ e ∈ child.properties?.getD [], KeepsSound rules all e.2)
    {label key : String} {parent above node : Node} {stale : Totals} {spot : Spot}
    (hparent : Sound rules all ⟨.property p, place, parent⟩) (hordered : parent.isOrdered = true)
    (hordered' : child.isOrdered = true)
    (hpaired : PairedAt rules all p place spot parent above child)
    (h : item rules label p (effectiveItemPolicy p parent) (some above) key child =
      .ok (some node, stale)) : ItemSound rules all p place spot node := by
  have habove := hpaired.above_sound hparent
  obtain ⟨-, hn⟩ | ⟨hpolicy, hn⟩ | ⟨-, _, type, info, own, declared, merged, rfl,
    ⟨hmono, hitem, htype⟩, hmerged, hn⟩ := item_paired h <;> cases hn
  · exact habove
  · exact backfill_sound hparent hordered hpaired hpolicy
  · have hrole (n : Node) : itemRole rules.schema (.property p) n = .type type := by
      rcases hpaired.kind with hkind | hkind <;>
        simp [itemRole, Schema.recordFor, Property.hasComplexItems, hkind, hitem, hmono, htype]
    have hsound := habove.sound
    rw [hrole] at hsound
    refine ⟨?_, fun _ hpoly => by simp [hmono] at hpoly⟩
    rw [hrole]
    exact joined_sound (fun _ => rfl) (unmixed_of_ne (by simp) ⟨_, hpaired.given, rfl⟩) hown hsound
      (hpaired.holds.ordered hordered) hordered' hpaired.given hmerged

/-! ## Collections -/

theorem collection_sound {node child : Node} (hkind : p.kind = .set ∨ p.kind = .map)
    (hnode : node.kind = p.kind) (hgiven : Given rules.schema all place child)
    (hinfo : child.info = node.info)
    (hitems : ∀ spot item, Open rules all ⟨.property p, place, node⟩ spot →
      node.Holds rules.schema spot item → ItemSound rules all p place spot item) :
    Sound rules all ⟨.property p, place, node⟩ := by
  refine sound_of_below ⟨⟨child, hgiven, hinfo⟩, ?_, ?_⟩ fun spot item hopen hholds => ?_
  · rintro q ⟨⟩ hcomplex
    rw [hcomplex] at hkind
    simp at hkind
  · rintro q spot item ⟨⟩ - hitem hpoly hopen hholds
    exact (hitems spot item hopen hholds).items hitem hpoly
  · rw [roleOf_item (hnode ▸ hkind) hholds]
    exact (hitems spot item hopen hholds).sound

theorem holds_member {s : Schema} {n item : Node} {label key : String} (hkind : n.kind = .set)
    (hitem : item ∈ n.items?.getD []) (hkey : s.itemKey p label item = .ok key) :
    n.Holds s (.member p key) item := by
  cases n with
  | set info own =>
    cases own with
    | none => cases hitem
    | some own => exact .member hitem (itemKey_eq_ok.2 (itemKey_eq_ok.1 hkey))
  | simple | complex | list | map => cases hkind

theorem holds_entry {s : Schema} {n item : Node} {key : String}
    (h : (n.entries?.getD []).lookup key = some item) : n.Holds s (.entry key) item := by
  cases n with
  | map info own =>
    cases own with
    | none => cases h
    | some own => exact .entry h
  | simple | complex | list | set => cases h

variable (hvalid : rules.schema.validate rules.strategies = .ok ())

theorem kept_sound {spot : Spot} {parent child n : Node} {above : Option Node} {key label : String}
    {stale : Totals} (hkind : p.kind = .set ∨ p.kind = .map) (hparentKind : parent.kind = p.kind)
    (hparent : Sound rules all ⟨.property p, place, parent⟩) (hordered : parent.isOrdered = true)
    (hopen : Open rules all ⟨.property p, place, parent⟩ spot) (hown : KeepsSound rules all child)
    (hordered' : child.isOrdered = true) (hchildKind : child.kind = p.itemKind.kind)
    (hgiven : Given rules.schema all (spot :: place) child)
    (habove : ∀ a, above = some a →
      parent.Holds rules.schema spot a ∧ a.kind = p.itemKind.kind)
    (h : item rules label p (effectiveItemPolicy p parent) above key child = .ok (some n, stale)) :
    ItemSound rules all p place spot n := by
  cases above with
  | none =>
    rw [(item_added h).2]
    exact itemSound_of_given hgiven
  | some a =>
    obtain ⟨hholds, hkindAbove⟩ := habove a rfl
    exact hown.item hparent hordered hordered'
      ⟨hkind, hparentKind, hopen, hholds, hkindAbove, hchildKind, hgiven⟩ h

include hvalid in
theorem set_sound {own : List Node} (hown : ∀ n ∈ own, KeepsSound rules all n) {parent node : Node}
    {info : Info} {label : String} {inner : Totals} (hkind : p.kind = .set)
    (hparentKind : parent.kind = p.kind) (hparent : Sound rules all ⟨.property p, place, parent⟩)
    (hordered : parent.isOrdered = true)
    (hordered' : (Node.set info (some own)).isOrdered = true)
    (hgiven : Given rules.schema all place (.set info (some own)))
    (h : ValuesTo rules label p parent (.set info (some own)) node inner) :
    Sound rules all ⟨.property p, place, node⟩ := by
  obtain ⟨above, keyed, merged, habove, hkeyed, hmerged, rfl⟩ := h
  rw [← keyItems_items hkeyed] at hmerged
  obtain ⟨pairs, rfl, hpairs⟩ := items_pairs hmerged
  refine collection_sound (.inl hkind) (by rw [hkind]; rfl) hgiven rfl
    fun spot item hopen hholds => ?_
  cases hholds with
  | property hvalue => cases hvalue
  | @member _ _ q key _ hmem hkey =>
    obtain ⟨hrole, hkeys⟩ := hopen q key rfl
    cases hrole
    have hopens (k : String) : Open rules all ⟨.property p, place, parent⟩ (.member p k) := by
      rintro _ _ ⟨⟩
      exact ⟨rfl, hkeys⟩
    have hfound {k : String} {a : Node} (ha : above.lookup k = some a) :
        (parent.Holds rules.schema (.member p k) a ∧ a.kind = p.itemKind.kind) ∧
          rules.schema.itemKey p label a = .ok k := by
      obtain ⟨hmem, hkey⟩ := keyItems_key habove _ (Keyed.mem_of_lookup ha)
      exact ⟨⟨holds_member (hparentKind.trans hkind) hmem hkey, keyItems_kind habove a hmem⟩, hkey⟩
    -- The merge looks items up by key, and the place of an item has the key that it ends up with.
    have hsame {k : String} (hk : rules.schema.itemKey p label item = .ok k) : k = key := by
      rw [itemKey_eq_ok] at hk hkey
      exact Option.some.inj (hk.symm.trans hkey)
    rcases List.mem_append.1 hmem with hmem | hmem
    · obtain ⟨e, he, rfl⟩ := List.mem_map.1 hmem
      obtain ⟨child, first, hchild, hitem⟩ := hpairs.source e he
      obtain ⟨hchildMem, hchildKey⟩ := keyItems_key hkeyed _ (Keyed.mem_of_lookup hchild)
      have hchildKind := keyItems_kind hkeyed child hchildMem
      have hchildGiven : Given rules.schema all (.member p e.1 :: place) child :=
        hgiven.holds (.member hchildMem (itemKey_eq_ok.2 (itemKey_eq_ok.1 hchildKey)))
      have horigin {a : Node} (ha : above.lookup e.1 = some a) :=
        (hparent.item (.inl hkind) hparentKind (hopens e.1) (hfound ha).1.1).sound.unmixed.origin
      have hitemKey := item_key hvalid hkeys hchildKind (fun a ha => ⟨(hfound ha).2, horigin ha⟩)
        hchildKey hchildGiven hitem
      obtain rfl := hsame hitemKey
      exact kept_sound (.inl hkind) hparentKind hparent hordered (hopens e.1) (hown child hchildMem)
        (set_ordered_iff.1 hordered' child hchildMem) hchildKind hchildGiven
        (fun a ha => (hfound ha).1) hitem
    · obtain ⟨e, he, rfl⟩ := List.mem_map.1 hmem
      obtain ⟨⟨hholds, -⟩, hkey⟩ := hfound (mem_survivors he).2.2
      obtain rfl := hsame hkey
      exact hparent.item (.inl hkind) hparentKind (hopens e.1) hholds

theorem map_sound {own : List (String × Node)} (hown : ∀ e ∈ own, KeepsSound rules all e.2)
    {parent node : Node} {info : Info} {label : String} {inner : Totals} (hkind : p.kind = .map)
    (hparentKind : parent.kind = p.kind) (hparent : Sound rules all ⟨.property p, place, parent⟩)
    (hordered : parent.isOrdered = true)
    (hordered' : (Node.map info (some own)).isOrdered = true)
    (hgiven : Given rules.schema all place (.map info (some own)))
    (h : ValuesTo rules label p parent (.map info (some own)) node inner) :
    Sound rules all ⟨.property p, place, node⟩ := by
  obtain ⟨merged, hparentItems, hownItems, hmerged, rfl⟩ := h
  obtain ⟨hsorted, hownOrdered⟩ := map_ordered_iff.1 hordered'
  refine collection_sound (.inr hkind) (by rw [hkind]; rfl) hgiven rfl fun spot item _ hholds => ?_
  cases hholds with
  | property hvalue => cases hvalue
  | @entry _ _ key _ hlookup =>
    rcases Keyed.mem_fillFrom (Keyed.mem_of_lookup hlookup) with he | he
    · exact hparent.item (.inr hkind) hparentKind (open_entry _ key)
        (holds_entry (mem_survivors he).2.2)
    · obtain ⟨child, first, hchild, hitem⟩ := mem_entries hmerged _ he
      exact kept_sound (.inr hkind) hparentKind hparent hordered (open_entry _ key)
        (hown _ hchild) (hownOrdered _ hchild) (checkEntries_kind hownItems _ hchild)
        (hgiven.holds (.entry (Keyed.lookup_of_mem hsorted hchild)))
        (fun a ha => ⟨holds_entry ha, checkEntries_kind hparentItems _ (Keyed.mem_of_lookup ha)⟩)
        hitem

/-! ## Properties -/

theorem text_sound {info : Info} {text merged : Option String}
    (hgiven : Given rules.schema all place (.simple info text)) (hkind : p.kind = .simple) :
    Sound rules all ⟨.property p, place, .simple info merged⟩ := by
  -- A text that a strategy makes has no place for types.
  refine sound_of_below ⟨⟨_, hgiven, rfl⟩, ?_, ?_⟩ fun spot child _ hchild => ?_
  · rintro q ⟨⟩ hcomplex
    simp [hkind] at hcomplex
  · rintro q spot item ⟨⟩ hcollection
    simp [hkind] at hcollection
  · cases hchild with
    | property h => cases h

include hvalid in
theorem keepsSound (child : Node) : KeepsSound rules all child := by
  -- A side that is taken whole is sound by itself, so the cases are about merged values.
  have close {child : Node} (hown : ∀ e ∈ child.properties?.getD [], KeepsSound rules all e.2)
      (hvalues : ∀ {label p parent node inner place},
        Sound rules all ⟨.property p, place, parent⟩ → parent.isOrdered = true →
        child.isOrdered = true → Given rules.schema all place child → parent.kind = p.kind →
        child.kind = p.kind → ValuesTo rules label p parent child node inner →
        Sound rules all ⟨.property p, place, node⟩) : KeepsSound rules all child := by
    refine ⟨fun hparent hordered hordered' hgiven h => ?_,
      fun hparent hordered hordered' hpaired h =>
        item_sound hown hparent hordered hordered' hpaired h⟩
    obtain ⟨⟨hparentKind, hchildKind⟩, rfl | ⟨-, rfl⟩ | ⟨-, inner, hinner⟩⟩ := property_sides h
    · exact hparent
    · exact sound_of_given hgiven
    · exact hvalues hparent hordered hordered' hgiven hparentKind hchildKind hinner
  induction child using Node.tree_induction with
  | simple info text =>
    apply close (by simp [properties?])
    intro label p parent node inner place hparent _ _ hgiven _ hkind hvalues
    have hout : Outcome rules (fun _ _ _ _ => True) p parent (.simple info text) node :=
      mergeText_outcome hvalues.1
    cases hout with
    | parent => exact hparent
    | child => exact sound_of_given hgiven
    | text => exact text_sound hgiven hkind.symm
  | complex info own declared ih =>
    refine @close (.complex info own declared) ih ?_
    intro label p parent node inner place hparent hordered hordered' hgiven _ hkind hvalues
    obtain ⟨-, rfl, -⟩ | ⟨-, rfl, -⟩ | ⟨type, merged, hchoice, hmerged, rfl⟩ := hvalues
    · exact sound_of_given hgiven
    · exact hparent
    · obtain ⟨hmono, htype⟩ := chooseComplex_combine hchoice
      refine joined_sound (fun n => recordOf_property n hkind.symm hmono htype) ?_ ih hparent
        hordered hordered' hgiven hmerged
      exact unmixed_of_mono ⟨_, hgiven, rfl⟩ hmono
  | absentList info | list info own =>
    apply close (by simp [properties?])
    intro label p parent node inner place hparent _ _ hgiven _ _ hvalues
    obtain ⟨rfl, -⟩ := hvalues
    split
    · exact hparent
    · exact sound_of_given hgiven
  | absentSet info | absentMap info =>
    apply close (by simp [properties?])
    intro label p parent node inner place _ _ _ hgiven _ _ hvalues
    obtain ⟨rfl, -⟩ := hvalues
    exact sound_of_given hgiven
  | set info own ih =>
    apply close (by simp [properties?])
    intro label p parent node inner place hparent hordered hordered' hgiven hparentKind hkind h
    exact set_sound hvalid ih hkind.symm hparentKind hparent hordered hordered' hgiven h
  | map info own ih =>
    apply close (by simp [properties?])
    intro label p parent node inner place hparent hordered hordered' hgiven hparentKind hkind h
    exact map_sound ih hkind.symm hparentKind hparent hordered hordered' hgiven h

/-! ## Levels -/

include hvalid in
/-- Wherever a merged node is entered, what is found there has the metadata of a node that a level
has at the same place. A polymorphic value is one that a level has there, with all that is in it,
and so is a polymorphic item, unless items are filled in with what levels have at their place. -/
theorem levels_unmixed {type : Record}
    (hordered : ∀ level, some level ∈ all → level.isOrdered = true) {node : Node} {stale : Totals}
    (h : levels rules type all = .ok (some node, stale)) {x : Seat}
    (hx : Reaches rules.schema (Open rules all) ⟨.type type, [], node⟩ x) :
    Unmixed rules all x := by
  have hgiven {level : Node} (hlevel : some level ∈ all) : Given rules.schema all [] level :=
    ⟨level, hlevel, .root⟩
  have hnode : node.isOrdered = true ∧ Sound rules all ⟨.type type, [], node⟩ := by
    refine levelsFrom_invariant
      (motive := fun n => n.isOrdered = true ∧ Sound rules all ⟨.type type, [], n⟩)
      ?_ (by simp) (fun n hn => ⟨hordered n hn, sound_of_given (hgiven hn)⟩) h
    rintro parent child node stale ⟨hparent, hsound⟩ hchild hmerged
    refine ⟨complex_ordered hparent (hordered child hchild) hmerged, ?_⟩
    obtain ⟨-, info, own, declared, merged, rfl, hproperties, rfl⟩ := complex_ok hmerged
    exact joined_sound (fun _ => rfl) (unmixed_of_ne (by simp) ⟨_, hgiven hchild, rfl⟩)
      (fun e _ => keepsSound hvalid e.2) hsound hparent (hordered _ hchild) (hgiven hchild)
      hproperties
  exact hnode.2 x hx

end ScopedConfig.Merge

/-! ## A small example

Handlers and hooks may have any type, and so may the handler of a host.
-/

namespace ScopedConfig.Sample

open Merge Schema

def handlers : Property := (Property.map "handlers" .complex "Handler").asPolymorphic

def hooks : Property := (Property.set "hooks" .complex "Hook").asPolymorphic

def portServers : Property := (Property.set "servers" .complex "Server").itemsBy .merge

def serverHandler : Property := (Property.complex "handler" "Handler").asPolymorphic

def handled : Record := { name := "App", properties := [handlers, hooks, portServers] }

def hook : Record :=
  { name := "Shell", identity := some "id", properties := [.simple "id" "string"] }

/-- Servers are told apart by their ports. -/
def portServer (value : ValuePolicy) : Record :=
  { name := "Server", identity := some "port"
    properties := [(Property.simple "port" "int").mergeBy value, serverHandler] }

def handledRules (value : ValuePolicy) : Merge.Rules :=
  ⟨[handled, hook, portServer value].foldl .insert .empty, .standard⟩

def wordAt (place : Scope.Path) (value : String) : Node :=
  .simple { definedAt := place, typeName := "string" } (some value)

def typed (place : Scope.Path) (typeName : String) (own : List (String × Node)) : Node :=
  .complex { definedAt := place, typeName } own (own.map Prod.fst)

def file : Node := typed global "File" [("path", wordAt global "/log")]

def console : Node := typed alice "Console" [("level", wordAt alice "info")]

def withEntry (place : Scope.Path) (p : Property) (entry : Node) : Node :=
  typed place "App" [(p.name,
    .map { definedAt := place, typeName := p.typeName } (some [("main", entry)]))]

def withItem (place : Scope.Path) (p : Property) (item : Node) : Node :=
  typed place "App" [(p.name, .set { definedAt := place, typeName := p.typeName } (some [item]))]

def handlerLevels : List (Option Node) :=
  [some (withEntry global handlers file), some (withEntry alice handlers console)]

/-- The identity of the first hook has the content that the second hook has as a whole. -/
def hookLevels : List (Option Node) :=
  [some (withItem global hooks (typed global "Shell"
      [("command", wordAt global "ls"),
        ("id", typed global "Marker" [("name", wordAt global "a")])])),
    some (withItem alice hooks (typed alice "Marker" [("name", wordAt alice "a")]))]

def serverLevels : List (Option Node) :=
  [some (withItem global portServers
      (typed global "Server" [("handler", file), ("port", wordAt global " 1")])),
    some (withItem alice portServers
      (typed alice "Server" [("handler", console), ("port", wordAt alice " 1")]))]

def handlerSeat : Seat :=
  ⟨.property serverHandler,
    [.property "handler", .member portServers (wordAt alice " 1").fingerprint, .property "servers"],
    console⟩

/-- The handler of a server is the user's, and has nothing of the global one. -/
theorem console_unmixed :
    (handledRules .useChild).schema.validate (handledRules .useChild).strategies = .ok () ∧
      (∀ level, some level ∈ serverLevels → level.isOrdered = true) ∧
      ∃ node stale,
        levels (handledRules .useChild) handled serverLevels = .ok (some node, stale) ∧
          Reaches (handledRules .useChild).schema (Open (handledRules .useChild) serverLevels)
            ⟨.type handled, [], node⟩ handlerSeat ∧
          Unmixed (handledRules .useChild) serverLevels handlerSeat := by
  have hvalid : (handledRules .useChild).schema.validate (handledRules .useChild).strategies =
      .ok () := rfl
  have hordered : ∀ level, some level ∈ serverLevels → level.isOrdered = true := by
    simp only [serverLevels, List.mem_cons, List.not_mem_nil, or_false, Option.some.injEq,
      forall_eq_or_imp, forall_eq]
    decide
  have hkeys : KeepsKeys (handledRules .useChild) serverLevels portServers
      [.property "servers"] := by
    refine keepsKeys_of_mono rfl ?_
    rintro type identity q ⟨⟩ ⟨⟩ ⟨⟩
    rfl
  obtain ⟨node, stale, hmerged, hseat⟩ : ∃ node stale,
      levels (handledRules .useChild) handled serverLevels = .ok (some node, stale) ∧
        Reaches (handledRules .useChild).schema (Open (handledRules .useChild) serverLevels)
          ⟨.type handled, [], node⟩ handlerSeat :=
    ⟨_, _, rfl, .held (.held (.held .refl
      (.property "servers") (open_property _ _) (.property rfl))
      (.member portServers _) (by rintro _ _ ⟨⟩; exact ⟨rfl, hkeys⟩)
        (.member List.mem_cons_self rfl))
      (.property "handler") (open_property _ _) (.property rfl)⟩
  exact ⟨hvalid, hordered, node, stale, hmerged, hseat,
    levels_unmixed hvalid hordered hmerged hseat⟩

/-- The levels merge, and some polymorphic value has a property that no level has at its place in a
value of its type. -/
def Mixes (rules : Merge.Rules) (all : List (Option Node)) : Prop :=
  rules.schema.validate rules.strategies = .ok () ∧
    (∀ level, some level ∈ all → level.isOrdered = true) ∧
    ∃ node stale, levels rules handled all = .ok (some node, stale) ∧
      ¬ ∀ x, Reaches rules.schema Proper ⟨.type handled, [], node⟩ x →
        TypesApart rules all Proper x

theorem handlers_mix : Mixes (handledRules .useChild) handlerLevels := by
  refine ⟨rfl, ?_, _, _, rfl, fun hapart => ?_⟩
  · simp only [handlerLevels, List.mem_cons, List.not_mem_nil, or_false, Option.some.injEq,
      forall_eq_or_imp, forall_eq]
    decide
  · have hseat := hapart _ (.held .refl (.property "handlers") (by rintro _ _ ⟨⟩) (.property rfl))
    have hown := hseat.items handlers (.entry "main") _ rfl (.inr rfl) rfl rfl (by rintro _ _ ⟨⟩)
      (.entry rfl) "path" _ rfl
    simp only [given_iff] at hown
    revert hown
    decide

theorem hooks_mix : Mixes (handledRules .useChild) hookLevels := by
  refine ⟨rfl, ?_, _, _, rfl, fun hapart => ?_⟩
  · simp only [hookLevels, List.mem_cons, List.not_mem_nil, or_false, Option.some.injEq,
      forall_eq_or_imp, forall_eq]
    decide
  · have hseat := hapart _ (.held .refl (.property "hooks") (by rintro _ _ ⟨⟩) (.property rfl))
    have hown := hseat.items hooks (.member hooks _) _ rfl (.inl rfl) rfl rfl
      (by rintro _ _ ⟨⟩; rfl) (.member List.mem_cons_self rfl) "command" _ rfl
    simp only [given_iff] at hown
    revert hown
    decide

theorem servers_mix : Mixes (handledRules (.strategy "max-int")) serverLevels := by
  refine ⟨rfl, ?_, _, _, rfl, fun hapart => ?_⟩
  · simp only [serverLevels, List.mem_cons, List.not_mem_nil, or_false, Option.some.injEq,
      forall_eq_or_imp, forall_eq]
    decide
  · have hseat := hapart _ (.held (.held (.held .refl
      (.property "servers") (by rintro _ _ ⟨⟩) (.property rfl))
      (.member portServers "\"1\"") (by rintro _ _ ⟨⟩; rfl) (.member List.mem_cons_self rfl))
      (.property "handler") (by rintro _ _ ⟨⟩) (.property rfl))
    have hown := hseat.value serverHandler rfl rfl rfl "level" _ rfl
    simp only [given_iff] at hown
    revert hown
    decide

/-- A console takes the path of a file, a hook gets a new key with what it takes, and a server moves
to a port that no level has. -/
theorem types_mix :
    Mixes (handledRules .useChild) handlerLevels ∧ Mixes (handledRules .useChild) hookLevels ∧
      Mixes (handledRules (.strategy "max-int")) serverLevels :=
  ⟨handlers_mix, hooks_mix, servers_mix⟩

end ScopedConfig.Sample
