import ScopedConfig.Merge
import ScopedConfig.Proofs.Content
import ScopedConfig.Proofs.Except

/-!
# Keys of set items

An item is told apart by one of its properties or by its whole content. Stamps change neither, so
the items of a stamped set have the keys of the items that were given.
-/

namespace ScopedConfig.Merge

open Schema Stamp ScopedConfig.Except

/-! ## One item -/

/-- What tells the items of a set apart: one of their properties, or their whole content. -/
inductive Identity where
  | property (name : String)
  | content

def identityOf? (s : Schema) (p : Property) (item : Node) : Option Identity :=
  match p.itemKind with
  | .simple => some .content
  | .complex =>
    if p.polymorphic then
      some (((s.find? item.typeName).bind Record.identity).elim .content .property)
    else ((s.find? p.typeName).bind Record.identity).map .property

def Identity.key? (item : Node) : Identity → Option String
  | .property name => (item.property? name).map Node.fingerprint
  | .content => some item.fingerprint

theorem itemKey_eq_ok {s : Schema} {p : Property} {place : String} {item : Node} {key : String} :
    s.itemKey p place item = .ok key ↔
      (identityOf? s p item).bind (Identity.key? item) = some key := by
  unfold itemKey identityOf?
  cases p.itemKind with
  | simple => simp [Identity.key?]
  | complex =>
    cases p.polymorphic with
    | true =>
      cases hr : (s.find? item.typeName).bind Record.identity with
      | none => simp [Identity.key?]
      | some identity => cases hv : item.property? identity <;> simp [Identity.key?, hv]
    | false =>
      cases hr : s.find? p.typeName with
      | none => simp [Schema.require, hr, bind, Except.bind]
      | some r =>
        cases hi : r.identity with
        | none => simp [Schema.require, hr, hi, bind, Except.bind, Error.misuse]
        | some identity =>
          cases hv : item.property? identity <;>
            simp [Schema.require, hr, hi, hv, bind, Except.bind, Identity.key?]

theorem itemKey_error {s : Schema} {p : Property} {place : String} {item : Node} {e : Error}
    (h : s.itemKey p place item = .error e) :
    identityOf? s p item = none ∨ ∃ name, identityOf? s p item = some (.property name) ∧
      item.property? name = none ∧ e = .corrupt place (.identityAbsent item.definedAt name) := by
  unfold itemKey at h
  unfold identityOf?
  cases hk : p.itemKind with
  | simple => simp [hk] at h
  | complex =>
    cases hmono : p.polymorphic with
    | true =>
      cases hr : (s.find? item.typeName).bind Record.identity with
      | none => simp [hk, hmono, hr] at h
      | some name => cases hv : item.property? name <;> simp_all
    | false =>
      cases hr : s.find? p.typeName with
      | none => exact .inl (by simp)
      | some r =>
        cases hi : r.identity with
        | none => exact .inl (by simp [hi])
        | some name =>
          cases hv : item.property? name <;>
            simp_all [Schema.require, bind, Except.bind]

theorem keyOf_eq {s : Schema} {p : Property} {place : String} {item : Node} {key : String}
    (h : s.itemKey p place item = .ok key) : keyOf s (.property p) item = key := by
  have hplain : s.itemKey p p.name item = .ok key := itemKey_eq_ok.2 (itemKey_eq_ok.1 h)
  simp [keyOf, hplain]

theorem itemKey_stamp {s : Schema} {target : Scope.Path} {role : Role}
    {previous ancestor : Option Node} {p : Property} {place : String} {item : Node} {key : String} :
    s.itemKey p place (stamp s target role previous ancestor item) = .ok key ↔
      s.itemKey p place item = .ok key := by
  have hidentity :
      identityOf? s p (stamp s target role previous ancestor item) = identityOf? s p item := by
    simp [identityOf?, Node.typeName, stampInfo]
  rw [itemKey_eq_ok, itemKey_eq_ok, hidentity]
  cases identityOf? s p item with
  | none => rfl
  | some identity =>
    cases identity with
    | content => simp [Identity.key?, fingerprint_stamp]
    | property name =>
      cases h : item.property? name <;> simp [Identity.key?, property?_stamp, h, fingerprint_stamp]

/-! ## All items -/

theorem keyItems_cons {rules : Rules} {place : String} {p : Property} {item : Node}
    {rest : List Node} {keyed : List (String × Node)}
    (h : keyItems rules place p (item :: rest) = .ok keyed) :
    ∃ key keyedRest, rules.schema.itemKey p place item = .ok key ∧
      keyItems rules place p rest = .ok keyedRest ∧ keyed = (key, item) :: keyedRest := by
  obtain ⟨_, -, h⟩ := bind_eq_ok.1 h
  obtain ⟨key, hkey, h⟩ := bind_eq_ok.1 h
  obtain ⟨keyedRest, hrest, h⟩ := bind_eq_ok.1 h
  exact ⟨key, keyedRest, hkey, hrest, (pure_eq_ok.1 h).symm⟩

theorem lookup_keyItems {rules : Rules} {place : String} {p : Property} {own : List Node}
    {keyed : List (String × Node)} (h : keyItems rules place p own = .ok keyed) (key : String) :
    keyed.lookup key = own.find? fun item => keyOf rules.schema (.property p) item == key := by
  induction own generalizing keyed with
  | nil => cases h; rfl
  | cons item rest ih =>
    obtain ⟨k, keyedRest, hkey, hrest, rfl⟩ := keyItems_cons h
    rw [List.lookup_cons, List.find?_cons, keyOf_eq hkey, BEq.comm, ih hrest]

end ScopedConfig.Merge
