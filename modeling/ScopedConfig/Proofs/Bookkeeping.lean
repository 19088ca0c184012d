import ScopedConfig.Proofs.Rising

/-!
# What a stamp writes

Stamping walks three trees side by side and rebuilds one of them. It changes where and in which
version each node was defined and what it was saved against, and takes all that from the other two
trees.
-/

namespace ScopedConfig

/-! ## Nodes of a tree -/

namespace Node

def children : Node → List Node
  | simple _ _ => []
  | complex _ own _ => own.map Prod.snd
  | list _ own | set _ own => own.getD []
  | map _ own => (own.getD []).map Prod.snd

/-- The second node is the first or stands somewhere below it. -/
abbrev Contains : Node → Node → Prop := Relation.ReflTransGen fun n child => child ∈ n.children

variable {n child : Node}

theorem mem_children_of_property {name : String} (h : n.property? name = some child) :
    child ∈ n.children := by
  cases n with
  | complex _ own _ => exact List.mem_map.2 ⟨(name, child), Keyed.mem_of_lookup h, rfl⟩
  | simple | list | set | map => cases h

theorem mem_children_of_item (h : child ∈ n.items?.getD []) : child ∈ n.children := by
  cases n with
  | list _ own | set _ own => exact h
  | simple | complex | map => cases h

theorem mem_children_of_entry {key : String}
    (h : (n.entries?.bind fun es => es.lookup key) = some child) : child ∈ n.children := by
  cases n with
  | map _ own =>
    obtain ⟨entries, rfl, hlookup⟩ := Option.bind_eq_some_iff.1 h
    exact List.mem_map.2 ⟨(key, child), Keyed.mem_of_lookup hlookup, rfl⟩
  | simple | complex | list | set => cases h

theorem mem_of_contains {all : List Node} (hclosed : ∀ n ∈ all, ∀ child ∈ n.children, child ∈ all)
    (hn : n ∈ all) {m : Node} (h : n.Contains m) : m ∈ all := by
  induction h with
  | refl => exact hn
  | tail _ hstep ih => exact hclosed _ ih _ hstep

/-- What is found belongs to the tree that is there. -/
def Within (tree found : Option Node) : Prop :=
  ∀ n, found = some n → ∃ root, tree = some root ∧ root.Contains n

variable {tree found next : Option Node}

theorem Within.refl (tree : Option Node) : Within tree tree := fun n h => ⟨n, h, .refl⟩

theorem Within.trans (h : Within tree found) (h' : Within found next) : Within tree next := by
  intro n hn
  obtain ⟨inner, hinner, hbelow⟩ := h' n hn
  obtain ⟨root, hroot, hreach⟩ := h inner hinner
  exact ⟨root, hroot, hreach.trans hbelow⟩

theorem within_of_children
    (h : ∀ n, found = some n → ∃ root, tree = some root ∧ n ∈ root.children) :
    Within tree found := by
  intro n hn
  obtain ⟨root, hroot, hmem⟩ := h n hn
  exact ⟨root, hroot, .single hmem⟩

theorem within_property (tree : Option Node) (name : String) :
    Within tree (tree.bind fun p => p.property? name) := by
  refine within_of_children fun n hn => ?_
  obtain ⟨root, hroot, hchild⟩ := Option.bind_eq_some_iff.1 hn
  exact ⟨root, hroot, mem_children_of_property hchild⟩

theorem within_items (h : ∀ n, found = some n → n ∈ (tree.bind Node.items?).getD []) :
    Within tree found := by
  refine within_of_children fun n hn => ?_
  cases tree with
  | none => cases h n hn
  | some root => exact ⟨root, rfl, mem_children_of_item (h n hn)⟩

theorem within_entry (tree : Option Node) (key : String) :
    Within tree (tree.bind fun p => p.entries?.bind fun es => es.lookup key) := by
  refine within_of_children fun n hn => ?_
  obtain ⟨root, hroot, hchild⟩ := Option.bind_eq_some_iff.1 hn
  exact ⟨root, hroot, mem_children_of_entry hchild⟩

end Node

namespace Stamp

open Schema Node

variable {s : Schema} {target : Scope.Path}

/-! ## One step below -/

theorem mem_stampProperties {record : Option Record} {previous ancestor : Option Node}
    {own : List (String × Node)} {e : String × Node}
    (h : e ∈ stampProperties s target record previous ancestor own) :
    ∃ child, e.2 = stamp s target (propertyRole record e.1)
      (previous.bind fun p => p.property? e.1) (ancestor.bind fun a => a.property? e.1) child := by
  induction own with
  | nil => cases h
  | cons first rest ih =>
    obtain ⟨name, child⟩ := first
    rw [stampProperties, List.mem_cons] at h
    rcases h with rfl | h
    · exact ⟨child, rfl⟩
    · exact ih h

theorem mem_stampEntries {role : Role} {previous ancestor : Option Node}
    {own : List (String × Node)} {e : String × Node}
    (h : e ∈ stampEntries s target role previous ancestor own) :
    ∃ entry, e.2 = stamp s target (itemRole s role entry)
      (previous.bind fun p => p.entries?.bind fun es => es.lookup e.1)
      (ancestor.bind fun a => a.entries?.bind fun es => es.lookup e.1) entry := by
  induction own with
  | nil => cases h
  | cons first rest ih =>
    obtain ⟨key, entry⟩ := first
    rw [stampEntries, List.mem_cons] at h
    rcases h with rfl | h
    · exact ⟨entry, rfl⟩
    · exact ih h

theorem within_withKey (role : Role) (tree : Option Node) (key : String) :
    Within tree (withKey s role (tree.bind Node.items?) key) :=
  within_items fun _ hn => List.mem_of_find?_eq_some hn

/-- The node was stamped against nodes of these two trees. -/
def StampedWithin (s : Schema) (target : Scope.Path) (previous ancestor : Option Node) (n : Node) :
    Prop :=
  ∃ role before above given, n = stamp s target role before above given ∧
    Within previous before ∧ Within ancestor above

theorem stampedWithin_children {role : Role} {previous ancestor : Option Node} {n child : Node}
    (h : child ∈ (stamp s target role previous ancestor n).children) :
    StampedWithin s target previous ancestor child := by
  cases n with
  | simple => cases h
  | complex info own declared =>
    obtain ⟨e, he, rfl⟩ := List.mem_map.1 h
    obtain ⟨given, hgiven⟩ := mem_stampProperties he
    exact ⟨_, _, _, given, hgiven, within_property _ _, within_property _ _⟩
  | list info own =>
    cases own with
    | none => cases h
    | some own =>
      obtain ⟨i, hi⟩ := List.mem_iff_getElem?.1 (show child ∈ stampList _ _ _ _ _ _ from h)
      rw [getElem?_stampList] at hi
      obtain ⟨given, -, rfl⟩ := Option.map_eq_some_iff.1 hi
      exact ⟨_, _, _, given, rfl, within_items fun _ hn => List.mem_of_getElem? hn,
        within_items fun _ hn => List.mem_of_getElem? hn⟩
  | set info own =>
    cases own with
    | none => cases h
    | some own =>
      obtain ⟨given, -, rfl⟩ := mem_stampSet h
      exact ⟨_, _, _, given, rfl, within_withKey _ _ _, within_withKey _ _ _⟩
  | map info own =>
    cases own with
    | none => cases h
    | some own =>
      obtain ⟨e, he, rfl⟩ := List.mem_map.1 h
      obtain ⟨given, hgiven⟩ := mem_stampEntries he
      exact ⟨_, _, _, given, hgiven, within_entry _ _, within_entry _ _⟩

/-- All nodes of a stamped tree were stamped against nodes of the other two. -/
theorem stampedWithin_of_contains {role : Role} {previous ancestor : Option Node} {n m : Node}
    (h : (stamp s target role previous ancestor n).Contains m) :
    StampedWithin s target previous ancestor m := by
  induction h with
  | refl => exact ⟨role, previous, ancestor, n, rfl, .refl _, .refl _⟩
  | tail _ hstep ih =>
    obtain ⟨inner, before, above, given, rfl, hbefore, habove⟩ := ih
    obtain ⟨role', before', above', given', rfl, hbefore', habove'⟩ := stampedWithin_children hstep
    exact ⟨role', before', above', given', rfl, hbefore.trans hbefore', habove.trans habove'⟩

/-! ## One node -/

/-- A version keeps a lower bound, and goes up by one only where 64 bits hold the next number. -/
theorem versionAfter_bounds {low : Int} {previous : Option Node} {n : Node} (hlow : low ≤ 1)
    (h : ∀ p, previous = some p → low ≤ p.version ∧ p.version < Text.maxInt64) :
    low ≤ versionAfter previous n ∧ versionAfter previous n ≤ Text.maxInt64 := by
  cases previous with
  | none => exact ⟨hlow, (by decide : (1 : Int) ≤ Text.maxInt64)⟩
  | some p =>
    obtain ⟨hp, hroom⟩ := h p rfl
    rw [versionAfter]
    split
    case isTrue => exact ⟨hp, Int.le_of_lt hroom⟩
    case isFalse => omega

theorem parent_stampInfo (target : Scope.Path) (previous ancestor : Option Node) (n : Node) :
    ((stampInfo target previous ancestor n).parentScope = none ∧
      (stampInfo target previous ancestor n).parentVersion = 0) ∨
    ∃ a, ancestor = some a ∧
      (stampInfo target previous ancestor n).parentScope = some a.scopeName ∧
      (stampInfo target previous ancestor n).parentVersion = a.version := by
  cases ancestor with
  | none => exact .inl ⟨rfl, rfl⟩
  | some a => exact .inr ⟨a, rfl, rfl, rfl⟩

/-- A stamped tree is the given one, node for node, in all but its bookkeeping. Every node of it is
defined at the target and records nothing or one node of the merged tree above. Its version is
positive if those that were stored before are: each of them leaves room for a next one, so that 64
bits hold the new version, and counting up is the addition of 64-bit numbers. -/
theorem forSave_bookkeeping (s : Schema) (type : Record) (previous : Option Node) (current : Node)
    (ancestor : Option Node) (target : Scope.Path) :
    (forSave s type previous current ancestor target).mapInfo (.unstamped target) =
        current.mapInfo (.unstamped target) ∧
      ∀ n, (forSave s type previous current ancestor target).Contains n →
        n.definedAt = target ∧
        ((n.info.parentScope = none ∧ n.info.parentVersion = 0) ∨
          ∃ root a, ancestor = some root ∧ root.Contains a ∧
            n.info.parentScope = some a.scopeName ∧ n.info.parentVersion = a.version) ∧
        ((∀ root p, previous = some root → root.Contains p →
            1 ≤ p.version ∧ p.version < Text.maxInt64) →
          1 ≤ n.version ∧ n.version ≤ Text.maxInt64) := by
  refine ⟨unstamped_stamp s target (.type type) previous ancestor current, ?_⟩
  intro n hn
  obtain ⟨role, before, above, given, rfl, hbefore, habove⟩ := stampedWithin_of_contains hn
  refine ⟨definedAt_stamp s target role before above given, ?_, ?_⟩
  · rw [info_stamp]
    rcases parent_stampInfo target before above given with hnone | ⟨a, ha, hscope, hversion⟩
    · exact .inl hnone
    · obtain ⟨root, hroot, hreach⟩ := habove a ha
      exact .inr ⟨root, a, hroot, hreach, hscope, hversion⟩
  · intro hpositive
    rw [version_stamp]
    refine versionAfter_bounds (Int.le_refl 1) fun p hp => ?_
    obtain ⟨root, hroot, hreach⟩ := hbefore p hp
    exact hpositive root p hroot hreach

end Stamp

namespace Sample

open Stamp

/-- The port of a machine that is saved for a user: its history goes on, its new value is older than
the one above. -/
theorem saved_port_kept :
    (∀ root p, some (machineAt 1 "a" "80") = some root → root.Contains p →
        1 ≤ p.version ∧ p.version < Text.maxInt64) ∧
      ∃ port, (forSave fleetSchema machine (some (machineAt 1 "a" "80")) (machineAt 1 "a" "81")
          (some (machineAt 3 "a" "79")) alice).Contains port ∧
        port.text? = some "81" ∧ port.version = 2 ∧ port.info.parentVersion = 3 ∧
        port.definedAt = alice ∧ 1 ≤ port.version ∧ port.version ≤ Text.maxInt64 := by
  have hpositive : ∀ root p, some (machineAt 1 "a" "80") = some root → root.Contains p →
      1 ≤ p.version ∧ p.version < Text.maxInt64 := by
    have hversions : ∀ n ∈ [machineAt 1 "a" "80", word 1 "a", word 1 "80"],
        1 ≤ n.version ∧ n.version < Text.maxInt64 := by
      decide
    rintro root p ⟨⟩ hp
    exact hversions p (Node.mem_of_contains (by decide) (by decide) hp)
  obtain ⟨-, hnodes⟩ := forSave_bookkeeping fleetSchema machine (some (machineAt 1 "a" "80"))
    (machineAt 1 "a" "81") (some (machineAt 3 "a" "79")) alice
  let port : Node := .simple
    { definedAt := alice, typeName := "string", version := 2, parentScope := some "global",
      parentVersion := 3 } (some "81")
  have hport := hnodes port (.single (by decide))
  exact ⟨hpositive, port, .single (by decide), rfl, rfl, rfl, hport.1, hport.2.2 hpositive⟩

end Sample

end ScopedConfig
