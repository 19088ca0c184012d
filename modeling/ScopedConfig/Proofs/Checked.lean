import ScopedConfig.Proofs.ItemKey
import ScopedConfig.Proofs.Merge

/-!
# Checked declarations

What is known of a property whose check went well, and of all properties of an accepted schema. A
merge of values of a checked property never meets a policy that it cannot follow.
-/

namespace ScopedConfig

open ScopedConfig.Except

namespace Schema

/-- The policies fit the property, and the types that it refers to are known. -/
structure Checked (s : Schema) (strategies : Strategies) (p : Property) : Prop where
  policy : p.misuse? strategies = none
  keyed : p.kind = .set → p.itemKind = .complex → p.polymorphic = false →
    ∃ type identity, s.find? p.typeName = some type ∧ type.identity = some identity
  typed : p.hasComplexItems = true → p.polymorphic = false → ∃ type, s.find? p.typeName = some type

variable {s : Schema} {strategies : Strategies} {p : Property} {owner : String}

theorem check_eq : p.check owner s strategies = (do
    (match p.misuse? strategies with
      | some m => Error.misuse (p.placeIn owner) m
      | none => .ok ())
    (if p.kind = .set ∧ p.itemKind = .complex ∧ p.polymorphic = false then
      s.require p.typeName >>= fun r =>
        if r.identity.isNone then Error.misuse (p.placeIn owner) (.identityMissing p.typeName)
        else .ok ()
      else .ok ())
    (if p.hasComplexItems && !p.polymorphic && (s.find? p.typeName).isNone then
      .error (.schema (.unknownTypeAt (p.placeIn owner) p.typeName))
      else .ok ())) := by
  unfold Property.check
  cases p.misuse? strategies with
  | some m => rfl
  | none =>
    simp only []
    split
    · cases s.require p.typeName with
      | error e => rfl
      | ok r =>
        change (if r.identity.isNone = true then _ else _) =
          (if r.identity.isNone = true then _ else _) >>= _
        cases r.identity <;> rfl
    · rfl

theorem checked_of_check (h : p.check owner s strategies = .ok ()) : Checked s strategies p := by
  rw [check_eq] at h
  obtain ⟨_, hpolicy, h⟩ := bind_eq_ok.1 h
  obtain ⟨_, hkeyed, htyped⟩ := bind_eq_ok.1 h
  refine ⟨?_, fun hkind hitem hmono => ?_, fun hcomplex hmono => ?_⟩
  · cases hm : p.misuse? strategies with
    | none => rfl
    | some m => simp [hm, Error.misuse] at hpolicy
  · rw [if_pos ⟨hkind, hitem, hmono⟩] at hkeyed
    obtain ⟨type, htype, hidentity⟩ := bind_eq_ok.1 hkeyed
    refine ⟨type, ?_⟩
    cases hi : type.identity with
    | none => simp [hi, Error.misuse] at hidentity
    | some identity => exact ⟨identity, Merge.require_ok htype, rfl⟩
  · cases hfind : s.find? p.typeName with
    | none => simp [hcomplex, hmono, hfind] at htyped
    | some type => exact ⟨type, rfl⟩

theorem require_error {name : String} {e : Error} (h : s.require name = .error e) :
    e = .schema (.unknownType name) := by
  unfold Schema.require at h
  split at h <;> cases h
  rfl

theorem check_error {e : Error} (h : p.check owner s strategies = .error e) :
    (∃ fault, e = .policy fault) ∨ ∃ fault, e = .schema fault := by
  rw [check_eq] at h
  rcases bind_eq_error.1 h with h | ⟨_, -, h⟩
  · cases hm : p.misuse? strategies with
    | none => simp [hm] at h
    | some m =>
      rw [hm] at h
      cases h
      exact .inl ⟨_, rfl⟩
  rcases bind_eq_error.1 h with h | ⟨_, -, h⟩
  · split at h
    · rcases bind_eq_error.1 h with h | ⟨type, -, h⟩
      · exact .inr ⟨_, require_error h⟩
      · split at h
        · cases h
          exact .inl ⟨_, rfl⟩
        · cases h
    · cases h
  · split at h
    · cases h
      exact .inr ⟨_, rfl⟩
    · cases h

theorem mem_records {name : String} {type : Record} (h : s.find? name = some type) :
    type ∈ s.records :=
  List.mem_map.2 ⟨(name, type), Keyed.mem_of_lookup h, rfl⟩

theorem check_of_validate (h : s.validate strategies = .ok ()) {type : Record}
    (htype : type ∈ s.records) (hp : p ∈ type.properties) :
    p.check type.name s strategies = .ok () := by
  obtain ⟨_, -, hproperties⟩ := bind_eq_ok.1 (forM_eq_ok.1 h type htype)
  obtain ⟨_, hcheck, -⟩ := bind_eq_ok.1 (forM_eq_ok.1 hproperties p hp)
  exact hcheck

theorem identity_simple (h : s.validate strategies = .ok ()) {name identity : String}
    {type : Record} (htype : s.find? name = some type) (hidentity : type.identity = some identity) :
    ∃ q, type.find? identity = some q ∧ q.kind = .simple := by
  obtain ⟨_, hcheck, -⟩ := bind_eq_ok.1 (forM_eq_ok.1 h type (mem_records htype))
  simp only [Record.checkIdentity, hidentity] at hcheck
  cases hq : type.find? identity with
  | none => simp [hq] at hcheck
  | some q =>
    simp only [hq] at hcheck
    split at hcheck
    · exact ⟨q, rfl, ‹_›⟩
    · cases hcheck

theorem target_of_validate (h : s.validate strategies = .ok ()) {type : Record}
    (htype : type ∈ s.records) (hp : p ∈ type.properties) {reference : Reference}
    (href : p.reference = some reference) : ∃ target, s.find? reference.target = some target := by
  obtain ⟨_, -, hproperties⟩ := bind_eq_ok.1 (forM_eq_ok.1 h type htype)
  obtain ⟨_, -, htarget⟩ := bind_eq_ok.1 (forM_eq_ok.1 hproperties p hp)
  cases hrequire : s.require reference.target with
  | ok target => exact ⟨target, Merge.require_ok hrequire⟩
  | error e =>
    simp [href, hrequire, discard, Functor.discard, Functor.mapConst, Except.map] at htarget

end Schema

namespace Merge

open Schema

variable {rules : Rules} {place : String} {p : Property} {parent : Node}

/-! ## Identities of checked properties -/

theorem identityOf_checked {s : Schema} {strategies : Strategies}
    (h : Checked s strategies p) (hkind : p.kind = .set) (item : Node) :
    (identityOf? s p item).isSome = true := by
  unfold identityOf?
  cases hitem : p.itemKind with
  | simple => rfl
  | complex =>
    cases hmono : p.polymorphic with
    | true => rfl
    | false =>
      obtain ⟨type, identity, htype, hidentity⟩ := h.keyed hkind hitem hmono
      simp [htype, hidentity]

theorem recordFor_identity {s : Schema} {item : Node} {name : String} (hkind : p.kind = .set)
    (h : identityOf? s p item = some (.property name)) :
    (s.recordFor p item).bind Record.identity = some name := by
  unfold identityOf? at h
  cases hitem : p.itemKind with
  | simple => simp [hitem] at h
  | complex =>
    have hrecord : s.recordFor p item =
        s.find? (if p.polymorphic then item.typeName else p.typeName) := by
      simp [recordFor, Property.hasComplexItems, hkind, hitem]
    rw [hrecord]
    cases hmono : p.polymorphic with
    | true =>
      simp only [hitem, hmono, if_true, Option.some.injEq] at h ⊢
      cases hidentity : (s.find? item.typeName).bind Record.identity with
      | none => simp [hidentity] at h
      | some identity => simpa [hidentity] using h
    | false =>
      simp only [hitem, hmono, Bool.false_eq_true, if_false] at h ⊢
      obtain ⟨identity, hidentity, hname⟩ := Option.map_eq_some_iff.1 h
      cases hname
      exact hidentity

/-! ## Policies of checked properties -/

theorem mergeText_of_checked (h : Checked rules.schema rules.strategies p)
    (hkind : p.kind = .simple) (info : Info) (text : Option String) :
    ∃ node, mergeText rules place (effectivePolicy p parent) parent info text = .ok node := by
  have hpolicy := h.policy
  unfold effectivePolicy
  split
  case isTrue =>
    rw [hkind]
    exact ⟨_, rfl⟩
  case isFalse =>
    unfold Property.misuse? at hpolicy
    cases hvalue : p.policy.value with
    | useChild | useParent => exact ⟨_, rfl⟩
    | merge => simp [hkind, hvalue] at hpolicy
    | strategy name =>
      cases hfind : rules.strategies.find? name with
      | none => simp [hkind, hvalue, Strategies.contains, hfind] at hpolicy
      | some combine => exact ⟨_, by rw [mergeText, hfind]⟩

theorem chooseComplex_of_checked (h : Checked rules.schema rules.strategies p)
    (hkind : p.kind = .complex) : ∃ choice, chooseComplex rules place p parent = .ok choice := by
  have hpolicy := h.policy
  have hsound : effectivePolicy p parent ≠ .merge ∨ p.polymorphic = false := by
    cases hmono : p.polymorphic with
    | false => exact .inr rfl
    | true =>
      refine .inl ?_
      unfold effectivePolicy
      split
      · simp [ValuePolicy.standard, hkind, hmono]
      · intro hvalue
        simp [Property.misuse?, hkind, hvalue, hmono] at hpolicy
  unfold chooseComplex
  cases hvalue : effectivePolicy p parent with
  | useChild | useParent => exact ⟨_, rfl⟩
  | strategy name =>
    unfold effectivePolicy at hvalue
    split at hvalue
    · cases hmono : p.polymorphic <;> simp [ValuePolicy.standard, hkind, hmono] at hvalue
    · simp [Property.misuse?, hkind, hvalue] at hpolicy
  | merge =>
    have hmono : p.polymorphic = false := hsound.resolve_left fun hne => hne hvalue
    obtain ⟨type, htype⟩ := h.typed (by simp [Property.hasComplexItems, hkind]) hmono
    refine ⟨.combine type, ?_⟩
    simp [hmono, Schema.require, htype, Except.map]

theorem chooseItem_of_checked (h : Checked rules.schema rules.strategies p)
    (hkind : p.kind = .set ∨ p.kind = .map) :
    ∃ choice, chooseItem rules place p (effectiveItemPolicy p parent) = .ok choice := by
  have hpolicy := h.policy
  unfold effectiveItemPolicy
  split
  · exact ⟨.child, rfl⟩
  · cases hitem : p.policy.item with
    | useChild | useParent => exact ⟨_, rfl⟩
    | merge =>
      have hsound : p.polymorphic = false ∧ p.itemKind = .complex := by
        unfold Property.misuse? at hpolicy
        rcases hkind with hkind | hkind <;>
          cases hmono : p.polymorphic <;> cases hk : p.itemKind <;>
          simp_all
      obtain ⟨hmono, hcomplex⟩ := hsound
      have htyped : p.hasComplexItems = true := by
        rcases hkind with hkind | hkind <;> simp [Property.hasComplexItems, hkind, hcomplex]
      obtain ⟨type, htype⟩ := h.typed htyped hmono
      refine ⟨.combine type, ?_⟩
      simp [chooseItem, hmono, hcomplex, Schema.require, htype, Except.map]

end Merge

end ScopedConfig
