import ScopedConfig.Proofs.Alike
import ScopedConfig.Proofs.Pairing

/-!
# Positions

A position is a way from a node down through properties and map entries. One node shows another if
it has the same at every position, as far as a merge promises it.
-/

namespace ScopedConfig

open Scope (Path)

/-! ## Positions -/

/-- From a complex node to a property, or from a map to an entry. -/
inductive Step where
  | property (name : String)
  | entry (key : String)
deriving DecidableEq

namespace Node

def child? (n : Node) : Step → Option Node
  | .property name => n.property? name
  | .entry key => n.entries?.bind fun es => es.lookup key

def at? : Node → List Step → Option Node
  | n, [] => some n
  | n, step :: rest => (n.child? step).bind fun child => child.at? rest

theorem Alike.child? {a b x : Node} {step : Step} (h : a.Alike b) (hx : a.child? step = some x) :
    ∃ y, b.child? step = some y ∧ x.Alike y := by
  cases step with
  | property name => exact h.property? hx
  | entry key => exact h.entry? hx

theorem child?_ordered {n child : Node} {step : Step} (h : n.isOrdered = true)
    (hchild : n.child? step = some child) : child.isOrdered = true := by
  cases step with
  | property name =>
    obtain ⟨own, hown, hchild⟩ := Option.bind_eq_some_iff.1 hchild
    exact properties_ordered h (name, child) (by rw [hown]; exact Keyed.mem_of_lookup hchild)
  | entry key =>
    obtain ⟨own, hown, hchild⟩ := Option.bind_eq_some_iff.1 hchild
    exact entries_ordered h (key, child) (by rw [hown]; exact Keyed.mem_of_lookup hchild)

theorem sameContent_child? {p n child : Node} {step : Step} (hp : p.isOrdered = true)
    (hn : n.isOrdered = true) (h : p.sameContent n = true) (hchild : n.child? step = some child) :
    ∃ c, p.child? step = some c ∧ c.sameContent child = true := by
  have hback := sameContent_symm hp hn h
  obtain ⟨c, hc, hsame⟩ : ∃ c, p.child? step = some c ∧ child.sameContent c = true := by
    cases step with
    | property name =>
      obtain ⟨own, hown, hlookup⟩ := Option.bind_eq_some_iff.1 hchild
      cases n with
      | complex =>
        cases hown
        obtain ⟨j, others, ds, rfl, -, hfields⟩ := eq_of_sameContent_complex hback
        exact sameFields_lookup hfields hlookup
      | simple | list | set | map => cases hown
    | entry key =>
      obtain ⟨own, hown, hlookup⟩ := Option.bind_eq_some_iff.1 hchild
      cases n with
      | map =>
        cases hown
        obtain ⟨j, others, rfl, -, hfields⟩ := eq_of_sameContent_map hback
        exact sameFields_lookup hfields hlookup
      | simple | complex | list | set => cases hown
  exact ⟨c, hc, sameContent_symm (child?_ordered hn hchild) (child?_ordered hp hc) hsame⟩

theorem child?_of_absent {n : Node} (h : n.isAbsent = true) (step : Step) :
    n.child? step = none := by
  cases n with
  | simple | complex => simp [isAbsent] at h
  | list _ own | set _ own | map _ own =>
    cases own with
    | none => cases step <;> rfl
    | some own => simp [isAbsent] at h

end Node

namespace Stamp

open Schema

/-- What the schema tells about a node one step below. -/
def roleBelow (s : Schema) (role : Role) (n : Node) (step : Step) (child : Node) : Role :=
  match step with
  | .property name => propertyRole (recordOf s role n) name
  | .entry _ => itemRole s role child

def roleAt (s : Schema) : Role → Node → List Step → Role
  | role, _, [] => role
  | role, n, step :: rest =>
    match n.child? step with
    | some child => roleAt s (roleBelow s role n step child) child rest
    | none => .unknown

end Stamp

/-! ## What is shown of a saved node -/

namespace Merge

open Schema Stamp ScopedConfig.Except

/-- The child's part is preferred wherever the property merges. -/
def KeepsChild (p : Property) : Bool :=
  match p.kind with
  | .simple | .list => p.policy.value == .useChild
  | .complex => p.policy.value == .merge || p.policy.value == .useChild
  | .set | .map => p.policy.entryAdded == .add && p.policy.item == .useChild

/-- All properties of the first node are properties of the second, with the same content. -/
def Includes (first n : Node) : Prop :=
  ∀ name value, first.property? name = some value →
    ∃ other, n.property? name = some other ∧ value.sameContent other = true

/-- Each key of the saved items is that of a loaded item that includes the first saved one with
it. By accident, an item with the key of a complex node in the levels above can lose it. -/
def ShowsItems (s : Schema) (p : Property) (above : Option Node) (own loaded : List Node) : Prop :=
  ∀ key first, withKey s (.property p) (some own) key = some first →
    ∃ n ∈ loaded, Includes first n ∧
      (s.itemKey p p.name n = .ok key ∨
        ∃ parent ∈ (above.bind Node.items?).getD [], KeyedByNode s p parent key)

/-- What a position of the loaded configuration has of the saved node there: the same text or list,
or the items of a declared set whose items can all be keyed. -/
def Kept (s : Schema) (role : Role) (above : Option Node) (saved loaded : Node) : Prop :=
  match saved with
  | .simple .. | .list _ (some _) => saved.sameContent loaded = true
  | .set _ (some own) =>
    ∀ p, role = .property p → p.kind = .set →
      (∀ item ∈ own, ∃ key, s.itemKey p p.name item = .ok key) →
      ∃ info items, loaded = .set info (some items) ∧ ShowsItems s p above own items
  | _ => True

/-- The saved node is found in the loaded one, position by position. -/
def Shows (s : Schema) (role : Role) (above : Option Node) (saved loaded : Node) : Prop :=
  ∀ steps n, saved.at? steps = some n →
    ∃ m, loaded.at? steps = some m ∧
      Kept s (roleAt s role saved steps) (above.bind fun a => a.at? steps) n m

variable {s : Schema} {role : Role} {above : Option Node} {saved loaded : Node}

theorem shows_of_below (hkept : Kept s role above saved loaded)
    (hbelow : ∀ step child, saved.child? step = some child →
      ∃ m, loaded.child? step = some m ∧
        Shows s (roleBelow s role saved step child) (above.bind fun a => a.child? step) child m) :
    Shows s role above saved loaded := by
  intro steps n hn
  cases steps with
  | nil =>
    cases hn
    refine ⟨loaded, rfl, ?_⟩
    cases above <;> exact hkept
  | cons step rest =>
    obtain ⟨child, hchild, hn⟩ := Option.bind_eq_some_iff.1 hn
    obtain ⟨m, hm, hshows⟩ := hbelow step child hchild
    obtain ⟨k, hk, hkept'⟩ := hshows rest n hn
    refine ⟨k, Option.bind_eq_some_iff.2 ⟨m, hm, hk⟩, ?_⟩
    rw [roleAt, hchild]
    rw [Option.bind_assoc] at hkept'
    exact hkept'

/-! ## Nodes that are taken as they are -/

theorem includes_of_alike {first n : Node} (hfirst : first.isOrdered = true) (h : first.Alike n) :
    Includes first n := by
  intro name value hvalue
  obtain ⟨other, hother, halike⟩ := h.property? hvalue
  have hstep : first.child? (.property name) = some value := hvalue
  exact ⟨other, hother, halike.sameContent (Node.child?_ordered hfirst hstep)⟩

theorem kept_of_alike (hordered : saved.isOrdered = true) (h : saved.Alike loaded) :
    Kept s role above saved loaded := by
  cases saved with
  | simple info text => exact h.sameContent hordered
  | complex => trivial
  | list info own =>
    cases own with
    | none => trivial
    | some own => exact h.sameContent hordered
  | map info own => cases own <;> trivial
  | set info own =>
    cases own with
    | none => trivial
    | some own =>
      intro p hp hkind hkeyed
      obtain ⟨j, items, rfl, hitems⟩ := h.set_iff
      refine ⟨j, items, rfl, fun key first hfirst => ?_⟩
      have hmem : first ∈ own := List.mem_of_find?_eq_some hfirst
      obtain ⟨n, hn, halike⟩ := withKey_alike hitems hfirst
      have hfirst' := Node.set_ordered_iff.1 hordered first hmem
      refine ⟨n, List.mem_of_find?_eq_some hn, includes_of_alike hfirst' halike, .inl ?_⟩
      obtain ⟨k, hk⟩ := hkeyed first hmem
      have hkey : keyOf s (.property p) first = key := by simpa using List.find?_some hfirst
      rw [keyOf_eq hk] at hkey
      subst hkey
      exact (itemKey_alike halike).1 hk

theorem shows_of_alike (hordered : saved.isOrdered = true) (h : saved.Alike loaded) :
    Shows s role above saved loaded := by
  intro steps n hn
  induction steps generalizing role above saved loaded with
  | nil =>
    cases hn
    refine ⟨loaded, rfl, kept_of_alike hordered h⟩
  | cons step rest ih =>
    obtain ⟨child, hchild, hn⟩ := Option.bind_eq_some_iff.1 hn
    obtain ⟨m, hm, halike⟩ := h.child? hchild
    obtain ⟨k, hk, hkept⟩ := @ih (roleBelow s role saved step child)
      (above.bind fun a => a.child? step) child m (Node.child?_ordered hordered hchild) halike hn
    refine ⟨k, Option.bind_eq_some_iff.2 ⟨m, hm, hk⟩, ?_⟩
    rw [roleAt, hchild]
    rw [Option.bind_assoc] at hkept
    exact hkept

theorem shows_stamp (target : Path) (stampRole : Role) (previous ancestor : Option Node)
    (hordered : saved.isOrdered = true) :
    Shows s role above saved (stamp s target stampRole previous ancestor saved) :=
  shows_of_alike hordered (alike_stamp s target stampRole previous ancestor saved).symm

theorem shows_backfill (target : Path) (stampRole : Role) (previous ancestor : Option Node)
    (parent : Node) (hordered : saved.isOrdered = true) :
    Shows s role above saved
      (backfill parent (stamp s target stampRole previous ancestor saved)) := by
  cases saved with
  | complex info own declared =>
    refine shows_of_below trivial fun step child hchild => ?_
    have halike := (alike_stamp s target stampRole previous ancestor
      (.complex info own declared)).symm
    obtain ⟨m, hm, hchildAlike⟩ := halike.child? hchild
    refine ⟨m, ?_, shows_of_alike (Node.child?_ordered hordered hchild) hchildAlike⟩
    cases step with
    | property name => exact property?_backfill parent hm
    | entry key => cases hchild
  | simple | list | set | map =>
    rw [backfill_of_kind (by rw [kind_stamp]; simp [Node.kind])]
    exact shows_stamp target stampRole previous ancestor hordered

end Merge

end ScopedConfig
