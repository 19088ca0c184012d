import Mathlib.Data.List.ProdSigma
import Mathlib.Logic.Relation
import ScopedConfig.Proofs.Checked
import ScopedConfig.Reference
import ScopedConfig.Schema.Document

/-!
# The graph of references

The places are types at scope paths. A step leads along a declared reference, or into an embedded
type at the same path. This is the graph that the check for cycles walks; it is stated here without
the walk.
-/

namespace ScopedConfig

open Schema (Property)
open ScopedConfig.Except

/-! ## Names of types -/

namespace Schema

/-- Every type is filed under its own name. -/
def IsNamed (s : Schema) : Prop := ∀ e ∈ s.types, e.2.name = e.1

instance (s : Schema) : Decidable s.IsNamed :=
  inferInstanceAs (Decidable (∀ e ∈ s.types, e.2.name = e.1))

theorem isNamed_empty : empty.IsNamed := by simp [IsNamed, empty]

theorem IsNamed.insert {s : Schema} (h : s.IsNamed) (r : Record) : (s.insert r).IsNamed := by
  intro e he
  rcases Keyed.mem_keys_insert he with rfl | he
  · rfl
  · exact h e he

theorem IsNamed.of_find? {s : Schema} (h : s.IsNamed) {name : String} {r : Record}
    (hr : s.find? name = some r) : r.name = name :=
  h _ (Keyed.mem_of_lookup hr)

theorem isNamed_of_toSchema {d : SchemaDocument} {s : Schema} (h : d.toSchema = .ok s) :
    s.IsNamed := by
  refine foldlM_invariant isNamed_empty (fun {s entry s'} hs hs' => ?_) h
  obtain ⟨r, -, hs'⟩ := bind_eq_ok.1 hs'
  exact pure_eq_ok.1 hs' ▸ hs.insert r

/-- Schemas are read with each type under its own name. -/
theorem isNamed_of_parse {source : String} {strategies : Strategies} {s : Schema}
    (h : parse source strategies = .ok s) : s.IsNamed := by
  obtain ⟨d, -, h⟩ := bind_eq_ok.1 h
  obtain ⟨s', hs', h⟩ := bind_eq_ok.1 h
  obtain ⟨_, -, h⟩ := bind_eq_ok.1 h
  exact pure_eq_ok.1 h ▸ isNamed_of_toSchema hs'

end Schema

namespace Reference

variable {s : Schema} {a b c root last : Place} {frames : List Place}

/-! ## Paths of references -/

theorem resolve_eq (reference : Schema.Reference) :
    resolve s reference =
      ((match reference.path with
        | some path => .ok path
        | none => s.require reference.target >>= fun target =>
          target.defaultPath.mapError .scope) >>=
      fun base =>
        match reference.instanceName with
        | some name => (base.append (.withProperty "instance" "name" name)).mapError .scope
        | none => .ok base) := by
  unfold resolve
  cases reference.path with
  | some path => rfl
  | none =>
    simp only []
    cases s.require reference.target <;> rfl

theorem resolve_error {reference : Schema.Reference} {e : Error}
    (h : resolve s reference = .error e) :
    (∃ fault, e = .schema fault) ∨ ∃ fault, e = .scope fault := by
  rw [resolve_eq] at h
  rcases bind_eq_error.1 h with h | ⟨base, -, h⟩
  · split at h
    · cases h
    · rcases bind_eq_error.1 h with h | ⟨target, -, h⟩
      · exact .inl ⟨_, Schema.require_error h⟩
      · obtain ⟨fault, -, rfl⟩ := mapError_eq_error.1 h
        exact .inr ⟨fault, rfl⟩
  · split at h
    · obtain ⟨fault, -, rfl⟩ := mapError_eq_error.1 h
      exact .inr ⟨fault, rfl⟩
    · cases h

/-! ## Steps -/

/-- The property is a reference to the place. -/
def LeadsTo (s : Schema) (p : Property) (b : Place) : Prop :=
  ∃ reference, p.reference = some reference ∧ b.1 = reference.target ∧
    resolve s reference = .ok b.2

/-- The value or the items have the declared type and belong to the place that they stand at. -/
def IsEmbedding (p : Property) : Prop :=
  p.reference = none ∧ p.hasComplexItems = true ∧ p.polymorphic = false

/-- The type at the first place has a reference that leads to the second. -/
def Refers (s : Schema) (a b : Place) : Prop :=
  ∃ r, s.find? a.1 = some r ∧ ∃ p ∈ r.properties, LeadsTo s p b

/-- The type at the first place embeds that of the second, at the same path. -/
def Embeds (s : Schema) (a b : Place) : Prop :=
  ∃ r, s.find? a.1 = some r ∧ ∃ p ∈ r.properties, IsEmbedding p ∧ b = (p.typeName, a.2)

def Step (s : Schema) (a b : Place) : Prop := Refers s a b ∨ Embeds s a b

theorem LeadsTo.unique {p : Property} (hb : LeadsTo s p b) (hc : LeadsTo s p c) : b = c := by
  obtain ⟨reference, href, hname, hpath⟩ := hb
  obtain ⟨reference', href', hname', hpath'⟩ := hc
  obtain rfl : reference = reference' := Option.some.inj (href.symm.trans href')
  exact Prod.ext (hname.trans hname'.symm) (Except.ok.inj (hpath.symm.trans hpath'))

theorem LeadsTo.not_isEmbedding {p : Property} (h : LeadsTo s p b) : ¬IsEmbedding p := by
  obtain ⟨reference, href, -⟩ := h
  exact fun hp => Option.some_ne_none reference (href.symm.trans hp.1)

/-- The property names a type, or a path, that is not there. -/
def Dangles (s : Schema) (p : Property) (e : Error) : Prop :=
  (∃ reference, p.reference = some reference ∧
    (s.require reference.target = .error e ∨ resolve s reference = .error e)) ∨
  IsEmbedding p ∧ s.require p.typeName = .error e

theorem dangles_error {p : Property} {e : Error} (h : Dangles s p e) :
    (∃ fault, e = .schema fault) ∨ ∃ fault, e = .scope fault := by
  rcases h with ⟨reference, -, h | h⟩ | ⟨-, h⟩
  · exact .inl ⟨_, Schema.require_error h⟩
  · exact resolve_error h
  · exact .inl ⟨_, Schema.require_error h⟩

abbrev Reaches (s : Schema) : Place → Place → Prop := Relation.ReflTransGen (Step s)

/-- The second place is embedded in the first at some depth, or is the first. -/
abbrev Contains (s : Schema) : Place → Place → Prop := Relation.ReflTransGen (Embeds s)

theorem path_of_contains (h : Contains s a b) : b.2 = a.2 := by
  induction h with
  | refl => rfl
  | tail _ hstep ih =>
    obtain ⟨r, -, p, -, -, rfl⟩ := hstep
    exact ih

/-- The place lies on a cycle with a reference in it. -/
def OnReferenceCycle (s : Schema) (a : Place) : Prop :=
  ∃ b c, Reaches s a b ∧ Refers s b c ∧ Reaches s c a

/-! ## Walks -/

/-- A walk from the root to the last place, with the places that its references lead to. -/
inductive Walk (s : Schema) (root : Place) : List Place → Place → Prop where
  | start : Walk s root [] root
  | refer {frames : List Place} {a b : Place} (before : Walk s root frames a)
    (step : Refers s a b) : Walk s root (frames ++ [b]) b
  | embed {frames : List Place} {a b : Place} (before : Walk s root frames a)
    (step : Embeds s a b) : Walk s root frames b

/-- The path of the last place is that of an earlier one. -/
def ClosesLoop (chain : List Place) : Prop :=
  ∃ before last, chain = before ++ [last] ∧ last.2 ∈ before.map Prod.snd

theorem Walk.reaches (h : Walk s root frames last) (ha : a ∈ root :: frames) :
    Reaches s root a ∧ Reaches s a last := by
  induction h generalizing a with
  | start =>
    rw [List.mem_singleton.1 ha]
    exact ⟨.refl, .refl⟩
  | @refer frames b c before step ih =>
    rw [← List.cons_append, List.mem_append, List.mem_singleton] at ha
    rcases ha with ha | rfl
    · exact ⟨(ih ha).1, (ih ha).2.tail (.inl step)⟩
    · exact ⟨(ih List.mem_cons_self).2.tail (.inl step), .refl⟩
  | embed before step ih => exact ⟨(ih ha).1, (ih ha).2.tail (.inr step)⟩

theorem Walk.last_reference (h : Walk s root (frames ++ [b]) last) :
    ∃ a, Walk s root frames a ∧ Refers s a b := by
  generalize hall : frames ++ [b] = all at h
  induction h with
  | start => simp at hall
  | @refer frames' a c before step ih =>
    obtain ⟨rfl, hlast⟩ := List.append_inj' hall rfl
    obtain rfl := List.singleton_injective hlast
    exact ⟨a, before, step⟩
  | embed before step ih => exact ih hall

/-! ## All places -/

/-- The places that references lead to. -/
def targets (s : Schema) : List Place :=
  (s.records.flatMap fun r => r.properties.filter fun p => p.reference.isSome).filterMap fun p =>
    p.reference.bind fun reference =>
      (resolve s reference).toOption.map fun path => (reference.target, path)

/-- Each type at the root path and at the path of each reference. -/
def places (s : Schema) (path : Scope.Path) : List Place :=
  s.types.map Prod.fst ×ˢ (path :: (targets s).map Prod.snd)

theorem length_places (path : Scope.Path) : (places s path).length < depthBound s := by
  have htargets : (targets s).length ≤ declaredCount s := List.length_filterMap_le _ _
  have hproduct : (places s path).length = s.types.length * (1 + (targets s).length) := by
    rw [places, List.length_product, List.length_map, List.length_cons, List.length_map,
      Nat.add_comm]
  have hle := Nat.mul_le_mul_left s.types.length (Nat.add_le_add_left htargets 1)
  rw [depthBound]
  omega

theorem mem_places {path : Scope.Path} :
    a ∈ places s path ↔
      (∃ r, s.find? a.1 = some r) ∧ (a.2 = path ∨ a.2 ∈ (targets s).map Prod.snd) := by
  have hname : a.1 ∈ s.types.map Prod.fst ↔ ∃ r, s.find? a.1 = some r := by
    rw [← Keyed.lookup_isSome_iff, Option.isSome_iff_exists]
    rfl
  rw [places, ← hname, ← List.mem_cons]
  exact List.mem_product

theorem mem_targets {r : Schema.Record} {p : Property} {reference : Schema.Reference}
    {path : Scope.Path} (hr : r ∈ s.records) (hp : p ∈ r.properties)
    (href : p.reference = some reference) (hpath : resolve s reference = .ok path) :
    (reference.target, path) ∈ targets s := by
  refine List.mem_filterMap.2 ⟨p, List.mem_flatMap.2 ⟨r, hr, ?_⟩, ?_⟩
  · exact List.mem_filter.2 ⟨hp, by simp [href]⟩
  · simp [href, hpath, Except.toOption]

theorem mem_targets_of_refers (h : Refers s a b) : b ∈ targets s := by
  obtain ⟨r, hr, p, hp, reference, href, hname, hpath⟩ := h
  have hmem := mem_targets (Schema.mem_records hr) hp href hpath
  rwa [← hname] at hmem

theorem step_places {path : Scope.Path} (ha : a ∈ places s path) (h : Step s a b)
    (hb : ∃ r, s.find? b.1 = some r) : b ∈ places s path := by
  refine mem_places.2 ⟨hb, ?_⟩
  rcases h with h | ⟨r, -, p, -, -, rfl⟩
  · exact .inr (List.mem_map_of_mem (mem_targets_of_refers h))
  · exact (mem_places.1 ha).2

theorem Walk.frames_subset (h : Walk s root frames last) : frames ⊆ targets s := by
  induction h with
  | start => exact List.nil_subset _
  | refer _ step ih =>
    exact List.append_subset.2 ⟨ih, List.cons_subset.2 ⟨mem_targets_of_refers step, by simp⟩⟩
  | embed _ _ ih => exact ih

end Reference

end ScopedConfig
