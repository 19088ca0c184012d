import ScopedConfig.Node.Content
import ScopedConfig.Proofs.Keyed

/-!
# Trees of nodes

Induction on nodes, the nodes whose keys are in order, and what does not change when only metadata
does.
-/

namespace ScopedConfig

namespace Node

/-- The case of a node may use the statement for everything that the node holds. -/
@[elab_as_elim]
theorem tree_induction {motive : Node → Prop} (simple : ∀ info text, motive (.simple info text))
    (complex : ∀ info own declared, (∀ e ∈ own, motive e.2) → motive (.complex info own declared))
    (absentList : ∀ info, motive (.list info none))
    (list : ∀ info own, (∀ item ∈ own, motive item) → motive (.list info (some own)))
    (absentSet : ∀ info, motive (.set info none))
    (set : ∀ info own, (∀ item ∈ own, motive item) → motive (.set info (some own)))
    (absentMap : ∀ info, motive (.map info none))
    (map : ∀ info own, (∀ e ∈ own, motive e.2) → motive (.map info (some own))) (n : Node) :
    motive n := by
  refine @Node.rec motive (fun own => ∀ e ∈ own, motive e.2)
    (fun own => (∀ info, motive (.list info own)) ∧ ∀ info, motive (.set info own))
    (fun own => ∀ info, motive (.map info own))
    (fun e => motive e.2) (fun own => ∀ item ∈ own, motive item)
    simple complex (fun info _ h => h.1 info) (fun info _ h => h.2 info) (fun info _ h => h info)
    (by simp) ?_
    ⟨absentList, absentSet⟩ (fun own h => ⟨fun info => list info own h, fun info => set info own h⟩)
    absentMap (fun own h info => map info own h) (fun _ _ h => h) (by simp) ?_ n
  all_goals
    intro head tail hhead htail e he
    rcases List.mem_cons.1 he with rfl | he
    · exact hhead
    · exact htail e he

/-! ## Ordered nodes -/

mutual

/-- Properties and entries are in strict order of their names and keys, at every depth. -/
def isOrdered : Node → Bool
  | simple .. | list _ none | set _ none | map _ none => true
  | complex _ own _ => decide (Keyed.Sorted own) && fieldsOrdered own
  | list _ (some own) | set _ (some own) => itemsOrdered own
  | map _ (some own) => decide (Keyed.Sorted own) && fieldsOrdered own

def fieldsOrdered : List (String × Node) → Bool
  | [] => true
  | (_, n) :: rest => n.isOrdered && fieldsOrdered rest

def itemsOrdered : List Node → Bool
  | [] => true
  | n :: rest => n.isOrdered && itemsOrdered rest

end

theorem fieldsOrdered_iff {own : List (String × Node)} :
    fieldsOrdered own = true ↔ ∀ e ∈ own, e.2.isOrdered = true := by
  induction own with
  | nil => simp [fieldsOrdered]
  | cons e rest ih => simp [fieldsOrdered, ih]

theorem itemsOrdered_iff {own : List Node} :
    itemsOrdered own = true ↔ ∀ n ∈ own, n.isOrdered = true := by
  induction own with
  | nil => simp [itemsOrdered]
  | cons n rest ih => simp [itemsOrdered, ih]

theorem complex_ordered_iff {info : Info} {own : List (String × Node)} {declared : List String} :
    (complex info own declared).isOrdered = true ↔
      Keyed.Sorted own ∧ ∀ e ∈ own, e.2.isOrdered = true := by
  simp [isOrdered, fieldsOrdered_iff]

theorem map_ordered_iff {info : Info} {own : List (String × Node)} :
    (map info (some own)).isOrdered = true ↔
      Keyed.Sorted own ∧ ∀ e ∈ own, e.2.isOrdered = true := by
  simp [isOrdered, fieldsOrdered_iff]

theorem set_ordered_iff {info : Info} {own : List Node} :
    (set info (some own)).isOrdered = true ↔ ∀ n ∈ own, n.isOrdered = true := by
  rw [isOrdered, itemsOrdered_iff]

theorem properties_ordered {n : Node} (h : n.isOrdered = true) :
    ∀ e ∈ n.properties?.getD [], e.2.isOrdered = true := by
  cases n with
  | complex info own declared => exact (complex_ordered_iff.1 h).2
  | simple | list | set | map => simp [properties?]

theorem properties_sorted {n : Node} (h : n.isOrdered = true) :
    Keyed.Sorted (n.properties?.getD []) := by
  cases n with
  | complex info own declared => exact (complex_ordered_iff.1 h).1
  | simple | list | set | map => exact Keyed.sorted_nil

theorem items_ordered {n : Node} (h : n.isOrdered = true) :
    ∀ item ∈ n.items?.getD [], item.isOrdered = true := by
  cases n with
  | list _ own | set _ own =>
    cases own with
    | none => simp [items?]
    | some own =>
      rw [isOrdered] at h
      exact itemsOrdered_iff.1 h
  | simple | complex | map => simp [items?]

theorem entries_ordered {n : Node} (h : n.isOrdered = true) :
    ∀ e ∈ n.entries?.getD [], e.2.isOrdered = true := by
  cases n with
  | map _ own =>
    cases own with
    | none => simp [entries?]
    | some own => exact (map_ordered_iff.1 h).2
  | simple | complex | list | set => simp [entries?]

/-! ## Metadata -/

mutual

/-- The same tree with other metadata. -/
def mapInfo (f : Info → Info) : Node → Node
  | simple i t => simple (f i) t
  | complex i own declared => complex (f i) (mapInfoFields f own) declared
  | list i none => list (f i) none
  | list i (some own) => list (f i) (some (mapInfoItems f own))
  | set i none => set (f i) none
  | set i (some own) => set (f i) (some (mapInfoItems f own))
  | map i none => map (f i) none
  | map i (some own) => map (f i) (some (mapInfoFields f own))

def mapInfoFields (f : Info → Info) : List (String × Node) → List (String × Node)
  | [] => []
  | (name, n) :: rest => (name, n.mapInfo f) :: mapInfoFields f rest

def mapInfoItems (f : Info → Info) : List Node → List Node
  | [] => []
  | n :: rest => n.mapInfo f :: mapInfoItems f rest

end

variable {f : Info → Info}

theorem mapInfoFields_eq (own : List (String × Node)) :
    mapInfoFields f own = own.map fun e => (e.1, e.2.mapInfo f) := by
  induction own with
  | nil => rfl
  | cons e rest ih => simp [mapInfoFields, ih]

@[simp] theorem length_mapInfoFields (own : List (String × Node)) :
    (mapInfoFields f own).length = own.length := by
  simp [mapInfoFields_eq]

theorem keys_mapInfoFields (own : List (String × Node)) :
    (mapInfoFields f own).map Prod.fst = own.map Prod.fst := by
  simp [mapInfoFields_eq]

theorem info_mapInfo (n : Node) : (n.mapInfo f).info = f n.info := by
  cases n with
  | simple | complex => rfl
  | list _ own | set _ own | map _ own => cases own <;> rfl

theorem kind_mapInfo (n : Node) : (n.mapInfo f).kind = n.kind := by
  cases n with
  | simple | complex => rfl
  | list _ own | set _ own | map _ own => cases own <;> rfl

theorem isAbsent_mapInfo (n : Node) : (n.mapInfo f).isAbsent = n.isAbsent := by
  cases n with
  | simple | complex => rfl
  | list _ own | set _ own | map _ own => cases own <;> rfl

theorem text?_mapInfo (n : Node) : (n.mapInfo f).text? = n.text? := by
  cases n with
  | simple | complex => rfl
  | list _ own | set _ own | map _ own => cases own <;> rfl

theorem properties?_mapInfo (n : Node) :
    (n.mapInfo f).properties? = n.properties?.map (mapInfoFields f) := by
  cases n with
  | simple | complex => rfl
  | list _ own | set _ own | map _ own => cases own <;> rfl

theorem items?_mapInfo (n : Node) : (n.mapInfo f).items? = n.items?.map (mapInfoItems f) := by
  cases n with
  | simple | complex => rfl
  | list _ own | set _ own | map _ own => cases own <;> rfl

theorem entries?_mapInfo (n : Node) :
    (n.mapInfo f).entries? = n.entries?.map (mapInfoFields f) := by
  cases n with
  | simple | complex => rfl
  | list _ own | set _ own | map _ own => cases own <;> rfl

theorem fieldChars_mapInfo (mark : Char) {own : List (String × Node)}
    (h : ∀ e ∈ own, (e.2.mapInfo f).fingerprintChars = e.2.fingerprintChars) :
    fieldChars mark (mapInfoFields f own) = fieldChars mark own := by
  induction own with
  | nil => rfl
  | cons e rest ih =>
    have hrest := ih fun e he => h e (List.mem_cons_of_mem _ he)
    simp [mapInfoFields, fieldChars, h e List.mem_cons_self, hrest]

theorem itemParts_mapInfo {own : List Node}
    (h : ∀ n ∈ own, (n.mapInfo f).fingerprintChars = n.fingerprintChars) :
    itemParts (mapInfoItems f own) = itemParts own := by
  induction own with
  | nil => rfl
  | cons n rest ih =>
    have hrest := ih fun m hm => h m (List.mem_cons_of_mem _ hm)
    simp [mapInfoItems, itemParts, h n List.mem_cons_self, hrest]

theorem fingerprintChars_mapInfo (hf : ∀ i, (f i).typeName = i.typeName) (n : Node) :
    (n.mapInfo f).fingerprintChars = n.fingerprintChars := by
  induction n using tree_induction with
  | simple i t => cases t <;> simp [mapInfo, fingerprintChars]
  | complex i own declared ih => simp [mapInfo, fingerprintChars, hf, fieldChars_mapInfo ':' ih]
  | absentList i | absentSet i | absentMap i => simp [mapInfo, fingerprintChars]
  | list i own ih => simp [mapInfo, fingerprintChars, itemParts_mapInfo ih]
  | set i own ih => simp [mapInfo, fingerprintChars, itemParts_mapInfo ih]
  | map i own ih => simp [mapInfo, fingerprintChars, fieldChars_mapInfo '=' ih]

theorem lookup_mapInfoFields (own : List (String × Node)) (name : String) :
    (mapInfoFields f own).lookup name = (own.lookup name).map (mapInfo f) := by
  induction own with
  | nil => rfl
  | cons e rest ih =>
    obtain ⟨k, n⟩ := e
    cases h : name == k <;> simp [mapInfoFields, List.lookup_cons, h, ih]

theorem property?_mapInfo (n : Node) (name : String) :
    (n.mapInfo f).property? name = (n.property? name).map (mapInfo f) := by
  simp only [property?, properties?_mapInfo]
  cases n.properties? with
  | none => rfl
  | some own => exact lookup_mapInfoFields own name

theorem sorted_mapInfoFields {own : List (String × Node)} :
    Keyed.Sorted (mapInfoFields f own) ↔ Keyed.Sorted own :=
  Keyed.sorted_congr (keys_mapInfoFields own)

theorem isOrdered_mapInfo (n : Node) : (n.mapInfo f).isOrdered = n.isOrdered := by
  have fields {own : List (String × Node)}
      (ih : ∀ e ∈ own, (e.2.mapInfo f).isOrdered = e.2.isOrdered) :
      fieldsOrdered (mapInfoFields f own) = fieldsOrdered own := by
    induction own with
    | nil => rfl
    | cons e rest ihr =>
      simp [mapInfoFields, fieldsOrdered, ih e List.mem_cons_self,
        ihr fun e he => ih e (List.mem_cons_of_mem _ he)]
  have items {own : List Node} (ih : ∀ n ∈ own, (n.mapInfo f).isOrdered = n.isOrdered) :
      itemsOrdered (mapInfoItems f own) = itemsOrdered own := by
    induction own with
    | nil => rfl
    | cons n rest ihr =>
      simp [mapInfoItems, itemsOrdered, ih n List.mem_cons_self,
        ihr fun n hn => ih n (List.mem_cons_of_mem _ hn)]
  induction n using tree_induction with
  | simple | absentList | absentSet | absentMap => rfl
  | complex i own declared ih => simp [mapInfo, isOrdered, fields ih, sorted_mapInfoFields]
  | list i own ih | set i own ih => simp [mapInfo, isOrdered, items ih]
  | map i own ih => simp [mapInfo, isOrdered, fields ih, sorted_mapInfoFields]

end Node

end ScopedConfig
