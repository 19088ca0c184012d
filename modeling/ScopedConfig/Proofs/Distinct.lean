import ScopedConfig.Proofs.Alike
import ScopedConfig.Proofs.Collections

/-!
# Sets without repeated keys

A node is distinct if no declared set in it holds two items with one key. Items that the schema
cannot tell apart have no key, and nothing is asked of what the schema does not declare.
-/

namespace ScopedConfig

namespace Schema

/-- The keys of the items that have one. -/
def itemKeys (s : Schema) (p : Property) (own : List Node) : List String :=
  own.filterMap fun item => (s.itemKey p p.name item).toOption

/-- The schema tells all items apart. -/
def Keyable (s : Schema) (p : Property) (own : List Node) : Prop :=
  ∀ item ∈ own, ∃ key, s.itemKey p p.name item = .ok key

mutual

/-- The node stands for a property, or for an item of it, and has this kind if it fits. -/
def distinct (s : Schema) (p : Property) (kind : Kind) : Node → Bool
  | .simple .. | .list .. | .set _ none | .map _ none => true
  | .complex _ own _ =>
    kind != .complex || p.polymorphic ||
      match s.find? p.typeName with
      | none => true
      | some type => fieldsDistinct s type own
  | .set _ (some own) => kind != .set || (decide (s.itemKeys p own).Nodup && itemsDistinct s p own)
  | .map _ (some own) => kind != .map || entriesDistinct s p own
termination_by structural n => n

def fieldsDistinct (s : Schema) (type : Record) : List (String × Node) → Bool
  | [] => true
  | (name, n) :: rest =>
    (match type.find? name with
      | none => true
      | some p => distinct s p p.kind n) && fieldsDistinct s type rest
termination_by structural own => own

def itemsDistinct (s : Schema) (p : Property) : List Node → Bool
  | [] => true
  | n :: rest => distinct s p p.itemKind.kind n && itemsDistinct s p rest
termination_by structural own => own

def entriesDistinct (s : Schema) (p : Property) : List (String × Node) → Bool
  | [] => true
  | (_, n) :: rest => distinct s p p.itemKind.kind n && entriesDistinct s p rest
termination_by structural own => own

end

/-- The same for a node of the type. -/
def isDistinct (s : Schema) (type : Record) (n : Node) : Bool :=
  s.fieldsDistinct type (n.properties?.getD [])

variable {s : Schema} {p : Property} {type : Record} {kind : Kind}

theorem fieldsDistinct_iff {own : List (String × Node)} :
    s.fieldsDistinct type own = true ↔
      ∀ e ∈ own, ∀ p, type.find? e.1 = some p → s.distinct p p.kind e.2 = true := by
  induction own with
  | nil => simp [fieldsDistinct]
  | cons e rest ih =>
    obtain ⟨name, n⟩ := e
    rw [fieldsDistinct, Bool.and_eq_true, ih, List.forall_mem_cons]
    cases type.find? name <;> simp

theorem itemsDistinct_iff {own : List Node} :
    s.itemsDistinct p own = true ↔ ∀ n ∈ own, s.distinct p p.itemKind.kind n = true := by
  induction own with
  | nil => simp [itemsDistinct]
  | cons n rest ih => rw [itemsDistinct, Bool.and_eq_true, ih, List.forall_mem_cons]

theorem entriesDistinct_iff {own : List (String × Node)} :
    s.entriesDistinct p own = true ↔ ∀ e ∈ own, s.distinct p p.itemKind.kind e.2 = true := by
  induction own with
  | nil => simp [entriesDistinct]
  | cons e rest ih => rw [entriesDistinct, Bool.and_eq_true, ih, List.forall_mem_cons]

theorem complex_distinct_iff {info : Info} {own : List (String × Node)} {declared : List String} :
    s.distinct p kind (.complex info own declared) = true ↔
      (kind = .complex → p.polymorphic = false → ∀ type, s.find? p.typeName = some type →
        s.fieldsDistinct type own = true) := by
  rw [distinct]
  cases hkind : kind != .complex <;> cases p.polymorphic <;> cases s.find? p.typeName <;> simp_all

theorem set_distinct_iff {info : Info} {own : List Node} :
    s.distinct p kind (.set info (some own)) = true ↔
      (kind = .set → (s.itemKeys p own).Nodup ∧
        ∀ n ∈ own, s.distinct p p.itemKind.kind n = true) := by
  rw [distinct, ← itemsDistinct_iff]
  cases hkind : kind != .set <;> simp_all

theorem map_distinct_iff {info : Info} {own : List (String × Node)} :
    s.distinct p kind (.map info (some own)) = true ↔
      (kind = .map → ∀ e ∈ own, s.distinct p p.itemKind.kind e.2 = true) := by
  rw [distinct, ← entriesDistinct_iff]
  cases hkind : kind != .map <;> simp_all

/-! ## Parts -/

theorem properties_distinct {n : Node} (h : s.distinct p .complex n = true)
    (hmono : p.polymorphic = false) (htype : s.find? p.typeName = some type) :
    s.fieldsDistinct type (n.properties?.getD []) = true := by
  cases n with
  | complex info own declared => exact complex_distinct_iff.1 h rfl hmono type htype
  | simple | list | set | map => rfl

theorem items_distinct {n : Node} (h : s.distinct p .set n = true) (hkind : n.kind = .set) :
    (s.itemKeys p (n.items?.getD [])).Nodup ∧
      ∀ item ∈ n.items?.getD [], s.distinct p p.itemKind.kind item = true := by
  cases n with
  | simple | complex | list | map => simp [Node.kind] at hkind
  | set info own =>
    cases own with
    | none => simp [itemKeys, Node.items?]
    | some own => exact set_distinct_iff.1 h rfl

theorem entries_distinct {n : Node} (h : s.distinct p .map n = true) :
    ∀ e ∈ n.entries?.getD [], s.distinct p p.itemKind.kind e.2 = true := by
  cases n with
  | simple | complex | list | set => simp [Node.entries?]
  | map info own =>
    cases own with
    | none => simp [Node.entries?]
    | some own => exact map_distinct_iff.1 h rfl

theorem itemKeys_of_keyable {own : List Node} (h : s.Keyable p own) :
    s.itemKeys p own = own.map (Stamp.keyOf s (.property p)) := by
  induction own with
  | nil => rfl
  | cons item rest ih =>
    rw [Keyable, List.forall_mem_cons] at h
    obtain ⟨⟨key, hkey⟩, hrest⟩ := h
    rw [List.map_cons, Merge.keyOf_eq hkey, ← ih hrest]
    simp [itemKeys, hkey, Except.toOption]

end Schema

namespace Merge

open Schema Stamp Node ScopedConfig.Except

theorem keyable_of_keys {s : Schema} {p : Property} {place : String} {keyed : List (String × Node)}
    (h : ∀ e ∈ keyed, s.itemKey p place e.2 = .ok e.1) :
    s.Keyable p (keyed.map Prod.snd) ∧
      (keyed.map Prod.snd).map (keyOf s (.property p)) = keyed.map Prod.fst := by
  refine ⟨fun item hitem => ?_, ?_⟩
  · obtain ⟨e, he, rfl⟩ := List.mem_map.1 hitem
    exact ⟨e.1, itemKey_eq_ok.2 (itemKey_eq_ok.1 (h e he))⟩
  · rw [List.map_map]
    exact List.map_congr_left fun e he => keyOf_eq (h e he)

theorem keyItems_keyOf {rules : Rules} {place : String} {p : Property} {own others : List Node}
    {keyed : List (String × Node)} (halike : List.Forall₂ Node.Alike own others)
    (h : keyItems rules place p others = .ok keyed) :
    rules.schema.Keyable p own ∧
      keyed.map Prod.fst = own.map (keyOf rules.schema (.property p)) := by
  induction halike generalizing keyed with
  | nil =>
    cases h
    exact ⟨by simp [Keyable], rfl⟩
  | @cons item other rest others hitem _ ih =>
    obtain ⟨key, keyedRest, hkey, hrest, rfl⟩ := keyItems_cons h
    obtain ⟨hkeyable, hkeys⟩ := ih hrest
    have hitemKey := (itemKey_alike hitem).2 hkey
    have hplain : rules.schema.itemKey p p.name item = .ok key :=
      itemKey_eq_ok.2 (itemKey_eq_ok.1 hitemKey)
    refine ⟨?_, by rw [List.map_cons, List.map_cons, hkeys, keyOf_eq hitemKey]⟩
    rw [Keyable, List.forall_mem_cons]
    exact ⟨⟨key, hplain⟩, hkeyable⟩

/-! ## Merges -/

section
variable (rules : Rules)

/-- No key is repeated in what becomes of the child. -/
structure KeepsDistinct (child : Node) : Prop where
  property : ∀ {owner place : String} {p : Property} {above node : Node} {stale : Totals},
    rules.schema.HasProperty p → rules.schema.distinct p p.kind above = true →
    rules.schema.distinct p p.kind child = true →
    property rules owner place p above child = .ok (node, stale) →
    rules.schema.distinct p p.kind node = true
  item : ∀ {place : String} {p : Property} {policy : ItemPolicy} {above : Option Node}
    {node : Node} {key : String} {stale : Totals},
    (∀ a, above = some a → rules.schema.distinct p p.itemKind.kind a = true) →
    rules.schema.distinct p p.itemKind.kind child = true →
    item rules place p policy above key child = .ok (some node, stale) →
    rules.schema.distinct p p.itemKind.kind node = true

end

variable {rules : Rules} {p : Property} {above : Node}

theorem fieldsDistinct_fillFrom {s : Schema} {type : Record} {extra own : List (String × Node)}
    (hextra : s.fieldsDistinct type extra = true) (hown : s.fieldsDistinct type own = true) :
    s.fieldsDistinct type (Keyed.fillFrom extra own) = true := by
  rw [fieldsDistinct_iff] at *
  intro e he
  rcases Keyed.mem_fillFrom he with he | he
  · exact hextra e he
  · exact hown e he

theorem backfill_distinct {s : Schema} {kind : Kind} {parent child : Node}
    (hparent : s.distinct p kind parent = true) (hchild : s.distinct p kind child = true) :
    s.distinct p kind (backfill parent child) = true := by
  by_cases hcomplex : child.kind = .complex
  case neg => rwa [backfill_of_kind hcomplex]
  cases child with
  | simple | list | set | map => cases hcomplex
  | complex info own declared =>
    cases parent with
    | simple | list | set | map => exact hchild
    | complex _ inherited _ =>
      rw [backfill, complex_distinct_iff] at *
      intro hkind hmono type htype
      exact fieldsDistinct_fillFrom (hparent hkind hmono type htype) (hchild hkind hmono type htype)

theorem joined_distinct {typeName : String} {type : Record} {own merged : List (String × Node)}
    (htype : rules.schema.find? typeName = some type)
    (hkeeps : ∀ e ∈ own, KeepsDistinct rules e.2)
    (habove : rules.schema.fieldsDistinct type (above.properties?.getD []) = true)
    (hown : rules.schema.fieldsDistinct type own = true) {place : String} {stale : Totals}
    (h : properties rules place type (above.properties?.getD []) own = .ok (merged, stale)) :
    rules.schema.fieldsDistinct type
      (Keyed.fillFrom (above.properties?.getD []) merged) = true := by
  refine fieldsDistinct_fillFrom habove (fieldsDistinct_iff.2 fun e he q hq => ?_)
  obtain ⟨child, hchild, ⟨-, rfl⟩ | ⟨a, q', first, ha, hq', hmerged⟩⟩ := mem_properties h e he
  · exact fieldsDistinct_iff.1 hown _ hchild q hq
  · obtain rfl : q = q' := Option.some.inj (hq.symm.trans hq')
    exact (hkeeps _ hchild).property (hasProperty_of_find? htype hq)
      (fieldsDistinct_iff.1 habove _ (Keyed.mem_of_lookup ha) q hq)
      (fieldsDistinct_iff.1 hown _ hchild q hq) hmerged

theorem complex_joined_distinct {type : Record} {info info' : Info}
    {own merged : List (String × Node)} {declared : List String} (hmono : p.polymorphic = false)
    (htype : rules.schema.find? p.typeName = some type)
    (hkeeps : ∀ e ∈ own, KeepsDistinct rules e.2)
    (habove : rules.schema.distinct p .complex above = true)
    (hchild : rules.schema.distinct p .complex (.complex info own declared) = true)
    {place : String} {stale : Totals}
    (h : properties rules place type (above.properties?.getD []) own = .ok (merged, stale)) :
    rules.schema.distinct p .complex (joined info' declared above merged) = true := by
  refine complex_distinct_iff.2 fun _ _ type' htype' => ?_
  obtain rfl : type = type' := Option.some.inj (htype.symm.trans htype')
  exact joined_distinct htype hkeeps (properties_distinct habove hmono htype)
    (properties_distinct hchild hmono htype) h

theorem set_keeps_distinct (hrules : Steady rules) {info : Info} {own : List Node}
    (hkeeps : ∀ n ∈ own, KeepsDistinct rules n) (hp : rules.schema.HasProperty p)
    (hkind : p.kind = .set)
    (habove : ∀ n ∈ above.items?.getD [], rules.schema.distinct p p.itemKind.kind n = true)
    (hown : ∀ n ∈ own, rules.schema.distinct p p.itemKind.kind n = true) {place : String}
    {node : Node} {inner : Totals}
    (h : ValuesTo rules place p above (.set info (some own)) node inner) :
    rules.schema.distinct p .set node = true := by
  obtain ⟨aboveItems, keyed, pairs, haboveItems, hkeyed, hpairs, rfl, hnodup, hkeys⟩ :=
    hrules.merged_set hp hkind h
  refine set_distinct_iff.2 fun _ => ⟨?_, fun n hn => ?_⟩
  · obtain ⟨hkeyable, hkeyOf⟩ := keyable_of_keys hkeys
    rwa [itemKeys_of_keyable hkeyable, hkeyOf]
  · have hfacts {key : String} {a : Node} (ha : aboveItems.lookup key = some a) :
        rules.schema.distinct p p.itemKind.kind a = true :=
      habove a (keyItems_key haboveItems _ (Keyed.mem_of_lookup ha)).1
    obtain ⟨e, he, rfl⟩ := List.mem_map.1 hn
    rcases List.mem_append.1 he with he | he
    · obtain ⟨child, _, hchild, hitem⟩ := hpairs.source e he
      have hmem := (keyItems_key hkeyed _ (Keyed.mem_of_lookup hchild)).1
      exact (hkeeps child hmem).item (fun a ha => hfacts ha) (hown child hmem) hitem
    · exact hfacts (mem_survivors he).2.2

theorem map_keeps_distinct {info : Info} {own : List (String × Node)}
    (hkeeps : ∀ e ∈ own, KeepsDistinct rules e.2)
    (habove : rules.schema.distinct p .map above = true)
    (hchild : rules.schema.distinct p .map (.map info (some own)) = true) {place : String}
    {node : Node} {inner : Totals}
    (h : ValuesTo rules place p above (.map info (some own)) node inner) :
    rules.schema.distinct p .map node = true := by
  obtain ⟨merged, -, -, hmerged, rfl⟩ := h
  have hentries := entries_distinct habove
  refine map_distinct_iff.2 fun _ e he => ?_
  rcases Keyed.mem_fillFrom he with he | he
  · exact hentries e (mem_of_survivors he)
  · obtain ⟨child, first, hc, hitem⟩ := mem_entries hmerged e he
    exact (hkeeps _ hc).item (fun a ha => hentries _ (Keyed.mem_of_lookup ha))
      (map_distinct_iff.1 hchild rfl _ hc) hitem

theorem item_keeps_distinct {child : Node}
    (hkeeps : ∀ e ∈ child.properties?.getD [], KeepsDistinct rules e.2) {policy : ItemPolicy}
    {above : Option Node}
    (habove : ∀ a, above = some a → rules.schema.distinct p p.itemKind.kind a = true)
    (hchild : rules.schema.distinct p p.itemKind.kind child = true) {place key : String}
    {node : Node} {stale : Totals}
    (h : item rules place p policy above key child = .ok (some node, stale)) :
    rules.schema.distinct p p.itemKind.kind node = true := by
  cases above with
  | none =>
    rw [(item_added h).2]
    exact hchild
  | some a =>
    have habove := habove a rfl
    obtain ⟨-, hnode⟩ | ⟨-, hnode⟩ | ⟨-, _, type, info, own, declared, merged, rfl,
      ⟨hmono, hitem, htype⟩, hmerged, hnode⟩ := item_paired h
    · cases hnode
      exact habove
    · cases hnode
      exact backfill_distinct habove hchild
    · cases hnode
      rw [hitem] at habove hchild ⊢
      exact complex_joined_distinct hmono htype hkeeps habove hchild hmerged

theorem keepsDistinct_of_values {child : Node}
    (hkeeps : ∀ e ∈ child.properties?.getD [], KeepsDistinct rules e.2)
    (hvalues : ∀ {place : String} {p : Property} {above node : Node} {inner : Totals},
      rules.schema.HasProperty p → (above.kind = p.kind ∧ child.kind = p.kind) →
      rules.schema.distinct p p.kind above = true → rules.schema.distinct p p.kind child = true →
      ValuesTo rules place p above child node inner →
      rules.schema.distinct p p.kind node = true) : KeepsDistinct rules child := by
  refine ⟨fun hp habove hchild h => ?_,
    fun habove hchild h => item_keeps_distinct hkeeps habove hchild h⟩
  obtain ⟨hkinds, rfl | ⟨-, rfl⟩ | ⟨-, inner, hinner⟩⟩ := property_sides h
  · exact habove
  · exact hchild
  · exact hvalues hp hkinds habove hchild hinner

theorem keeps_distinct (hrules : Steady rules) (child : Node) : KeepsDistinct rules child := by
  induction child using Node.tree_induction with
  | simple info text =>
    refine keepsDistinct_of_values (by simp [properties?]) ?_
    intro place p above node inner _ _ habove _ h
    have hout : Outcome rules (fun _ _ _ _ => True) p above (.simple info text) node :=
      mergeText_outcome h.1
    cases hout with
    | parent => exact habove
    | child | text => rfl
  | complex info own declared ih =>
    refine keepsDistinct_of_values ih ?_
    intro place p above node inner hp hkinds habove hchild h
    obtain ⟨-, rfl, -⟩ | ⟨-, rfl, -⟩ | ⟨type, merged, hchoice, hmerged, rfl⟩ := h
    · exact hchild
    · exact habove
    · obtain ⟨hmono, htype⟩ := chooseComplex_combine hchoice
      rw [← hkinds.2] at habove hchild ⊢
      exact complex_joined_distinct hmono htype ih habove hchild hmerged
  | absentList | list =>
    refine keepsDistinct_of_values (by simp [properties?]) ?_
    intro place p above node inner _ _ habove _ h
    obtain ⟨rfl, -⟩ := h
    split
    · exact habove
    · rfl
  | absentSet | absentMap =>
    refine keepsDistinct_of_values (by simp [properties?]) ?_
    intro place p above node inner _ _ _ hchild h
    obtain ⟨rfl, -⟩ := h
    exact hchild
  | set info own ih =>
    refine keepsDistinct_of_values (by simp [properties?]) ?_
    rintro place p above node inner hp ⟨haboveKind, hkind⟩ habove hchild h
    rw [← hkind] at haboveKind habove hchild ⊢
    exact set_keeps_distinct hrules ih hp hkind.symm (items_distinct habove haboveKind).2
      (set_distinct_iff.1 hchild rfl).2 h
  | map info own ih =>
    refine keepsDistinct_of_values (by simp [properties?]) ?_
    rintro place p above node inner hp ⟨-, hkind⟩ habove hchild h
    rw [← hkind] at habove hchild ⊢
    exact map_keeps_distinct ih habove hchild h

end Merge

end ScopedConfig
