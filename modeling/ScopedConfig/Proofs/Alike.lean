import ScopedConfig.Proofs.ItemKey

/-!
# Nodes that differ in bookkeeping

Two nodes are alike if only the bookkeeping of saves tells them apart: where they were defined, and
their versions. A stamped node is like the node that was given. Alike nodes have the same parts up
to alike nodes, the same keys, and the same content.
-/

namespace ScopedConfig

namespace Node

def Alike (a b : Node) : Prop :=
  ∀ place, a.mapInfo (.unstamped place) = b.mapInfo (.unstamped place)

namespace Alike

variable {a b c : Node}

protected theorem refl (a : Node) : a.Alike a := fun _ => rfl

protected theorem symm (h : a.Alike b) : b.Alike a := fun place => (h place).symm

/-! ## Single nodes -/

theorem kind (h : a.Alike b) : a.kind = b.kind := by
  rw [← kind_mapInfo a, h a.definedAt, kind_mapInfo]

theorem typeName (h : a.Alike b) : a.typeName = b.typeName := by
  have htype {place : Scope.Path} (n : Node) :
      (n.mapInfo (.unstamped place)).typeName = n.typeName := by
    rw [Node.typeName, info_mapInfo]
    rfl
  rw [← htype a, h a.definedAt, htype]

theorem isAbsent (h : a.Alike b) : a.isAbsent = b.isAbsent := by
  rw [← isAbsent_mapInfo a, h a.definedAt, isAbsent_mapInfo]

theorem fingerprint (h : a.Alike b) : a.fingerprint = b.fingerprint := by
  have hread := fingerprintChars_mapInfo (f := Info.unstamped a.definedAt) fun _ => rfl
  rw [Node.fingerprint, ← hread, h, hread, Node.fingerprint]

theorem isOrdered (h : a.Alike b) : a.isOrdered = b.isOrdered := by
  have hkeys := isOrdered_mapInfo (f := Info.unstamped a.definedAt)
  rw [← hkeys, h, hkeys]

theorem sameContent_right (h : a.Alike b) (n : Node) : n.sameContent a = n.sameContent b := by
  have hread := sameContent_mapInfo (f := Info.unstamped a.definedAt) (fun _ => rfl) n
  rw [← hread, h, hread]

theorem sameContent (h : a.Alike b) (ha : a.isOrdered = true) : a.sameContent b = true := by
  rw [← h.sameContent_right]
  exact sameContent_refl ha

/-! ## The nodes below -/

theorem property? {name : String} {x : Node} (h : a.Alike b) (hx : a.property? name = some x) :
    ∃ y, b.property? name = some y ∧ x.Alike y := by
  have hmap (place : Scope.Path) := congrArg (fun n => n.property? name) (h place)
  simp only [property?_mapInfo, hx, Option.map_some] at hmap
  cases hb : b.property? name with
  | none => simpa [hb] using hmap x.definedAt
  | some y => exact ⟨y, rfl, fun place => by simpa [hb] using hmap place⟩

theorem property?_none {name : String} (h : a.Alike b) (ha : a.property? name = none) :
    b.property? name = none := by
  cases hb : b.property? name with
  | none => rfl
  | some y =>
    obtain ⟨x, hx, -⟩ := h.symm.property? hb
    rw [ha] at hx
    cases hx

theorem names (h : a.Alike b) :
    (a.properties?.getD []).map Prod.fst = (b.properties?.getD []).map Prod.fst := by
  have hread {f : Info → Info} (n : Node) :
      ((n.mapInfo f).properties?.getD []).map Prod.fst = (n.properties?.getD []).map Prod.fst := by
    rw [properties?_mapInfo]
    cases n.properties? with
    | none => rfl
    | some own => exact keys_mapInfoFields own
  rw [← hread a, h a.definedAt, hread]

theorem entry? {key : String} {x : Node} (h : a.Alike b)
    (hx : (a.entries?.bind fun es => es.lookup key) = some x) :
    ∃ y, (b.entries?.bind fun es => es.lookup key) = some y ∧ x.Alike y := by
  have hread {f : Info → Info} (n : Node) :
      ((n.mapInfo f).entries?.bind fun es => es.lookup key) =
        (n.entries?.bind fun es => es.lookup key).map (mapInfo f) := by
    rw [entries?_mapInfo]
    cases n.entries? with
    | none => rfl
    | some own => exact lookup_mapInfoFields own key
  have hmap (place : Scope.Path) :=
    congrArg (fun n => n.entries?.bind fun es => es.lookup key) (h place)
  simp only [hread, hx, Option.map_some] at hmap
  cases hb : b.entries?.bind fun es => es.lookup key with
  | none => simpa [hb] using hmap x.definedAt
  | some y => exact ⟨y, rfl, fun place => by simpa [hb] using hmap place⟩

theorem items_forall₂ {xs ys : List Node}
    (h : ∀ place, mapInfoItems (.unstamped place) xs = mapInfoItems (.unstamped place) ys) :
    List.Forall₂ Alike xs ys := by
  induction xs generalizing ys with
  | nil =>
    cases ys with
    | nil => exact .nil
    | cons y ys => simpa [mapInfoItems] using h y.definedAt
  | cons x xs ih =>
    cases ys with
    | nil => simpa [mapInfoItems] using h x.definedAt
    | cons y ys =>
      simp only [mapInfoItems, List.cons.injEq] at h
      exact .cons (fun place => (h place).1) (ih fun place => (h place).2)

theorem set_iff {i : Info} {xs : List Node} (h : (set i (some xs)).Alike b) :
    ∃ j ys, b = set j (some ys) ∧ List.Forall₂ Alike xs ys := by
  have hkind := h.kind
  have habsent := h.isAbsent
  cases b with
  | set j own =>
    cases own with
    | none => simp [Node.isAbsent] at habsent
    | some ys =>
      refine ⟨j, ys, rfl, items_forall₂ fun place => ?_⟩
      simpa [mapInfo] using (set.inj (h place)).2
  | simple | complex | list | map => simp [Node.kind] at hkind

/-! ## From the nodes below -/

/-- Pairs with the same names and alike nodes, in the same order. -/
def AlikeFields (xs ys : List (String × Node)) : Prop :=
  List.Forall₂ (fun x y => x.1 = y.1 ∧ x.2.Alike y.2) xs ys

theorem AlikeFields.names {xs ys : List (String × Node)} (h : AlikeFields xs ys) :
    xs.map Prod.fst = ys.map Prod.fst := by
  induction h with
  | nil => rfl
  | cons hxy _ ih => rw [List.map_cons, List.map_cons, hxy.1, ih]

theorem mapInfoFields_congr {xs ys : List (String × Node)} (h : AlikeFields xs ys)
    (place : Scope.Path) :
    mapInfoFields (.unstamped place) xs = mapInfoFields (.unstamped place) ys := by
  induction h with
  | nil => rfl
  | @cons x y xs ys hxy _ ih =>
    obtain ⟨name, x⟩ := x
    obtain ⟨name', y⟩ := y
    obtain ⟨rfl, halike⟩ := hxy
    rw [mapInfoFields, mapInfoFields, halike place, ih]

theorem mapInfoItems_congr {xs ys : List Node} (h : List.Forall₂ Alike xs ys)
    (place : Scope.Path) :
    mapInfoItems (.unstamped place) xs = mapInfoItems (.unstamped place) ys := by
  induction h with
  | nil => rfl
  | cons hxy _ ih => rw [mapInfoItems, mapInfoItems, hxy place, ih]

section
variable {i j : Info} (hinfo : ∀ place, i.unstamped place = j.unstamped place)
include hinfo

theorem complex_alike {xs ys : List (String × Node)} {declared : List String}
    (h : AlikeFields xs ys) :
    (complex i xs declared).Alike (complex j ys declared) := fun place => by
  rw [mapInfo, mapInfo, hinfo place, mapInfoFields_congr h place]

theorem set_alike {xs ys : List Node} (h : List.Forall₂ Alike xs ys) :
    (set i (some xs)).Alike (set j (some ys)) := fun place => by
  rw [mapInfo, mapInfo, hinfo place, mapInfoItems_congr h place]

theorem map_alike {xs ys : List (String × Node)} (h : AlikeFields xs ys) :
    (map i (some xs)).Alike (map j (some ys)) := fun place => by
  rw [mapInfo, mapInfo, hinfo place, mapInfoFields_congr h place]

end

end Alike

end Node

/-! ## Keys -/

namespace Merge

open Schema Node

theorem identityOf?_alike {s : Schema} {p : Property} {a b : Node} (h : a.Alike b) :
    identityOf? s p a = identityOf? s p b := by
  simp [identityOf?, h.typeName]

theorem key?_alike {identity : Identity} {a b : Node} (h : a.Alike b) :
    identity.key? a = identity.key? b := by
  cases identity with
  | content => simp [Identity.key?, h.fingerprint]
  | property name =>
    cases ha : a.property? name with
    | none => simp [Identity.key?, ha, h.property?_none ha]
    | some x =>
      obtain ⟨y, hy, hxy⟩ := h.property? ha
      simp [Identity.key?, ha, hy, hxy.fingerprint]

theorem itemKey_alike {s : Schema} {p : Property} {place : String} {a b : Node} {key : String}
    (h : a.Alike b) : s.itemKey p place a = .ok key ↔ s.itemKey p place b = .ok key := by
  rw [itemKey_eq_ok, itemKey_eq_ok, identityOf?_alike h]
  cases identityOf? s p b with
  | none => rfl
  | some identity => rw [Option.bind_some, Option.bind_some, key?_alike h]

end Merge

namespace Stamp

open Schema Node

theorem alike_stamp (s : Schema) (target : Scope.Path) (role : Role)
    (previous ancestor : Option Node) (n : Node) :
    (stamp s target role previous ancestor n).Alike n :=
  fun _ => mapInfo_stamp s target (fun _ _ _ => rfl) role previous ancestor n

theorem stampSet_alike (s : Schema) (target : Scope.Path) (role : Role)
    (previous ancestor : Option (List Node)) (own : List Node) :
    List.Forall₂ Alike own (stampSet s target role previous ancestor own) := by
  induction own with
  | nil => exact .nil
  | cons item rest ih => exact .cons (alike_stamp s target _ _ _ item).symm ih

theorem keys_stampEntries (s : Schema) (target : Scope.Path) (role : Role)
    (previous ancestor : Option Node) (own : List (String × Node)) :
    (stampEntries s target role previous ancestor own).map Prod.fst = own.map Prod.fst := by
  induction own with
  | nil => rfl
  | cons e rest ih => simp [stampEntries, ih]

theorem keyOf_of_itemKey {s : Schema} {role : Role} {a b : Node}
    (hkey : ∀ p key, s.itemKey p p.name a = .ok key ↔ s.itemKey p p.name b = .ok key)
    (h : a.fingerprint = b.fingerprint) : keyOf s role a = keyOf s role b := by
  cases role with
  | unknown | type => simp [keyOf, h]
  | property p =>
    cases ha : s.itemKey p p.name a with
    | ok key => simp [keyOf, ha, (hkey p key).1 ha]
    | error e =>
      cases hb : s.itemKey p p.name b with
      | ok key => simp [(hkey p key).2 hb] at ha
      -- The schema gives a key to neither item, so the fingerprint is the key.
      | error e' => simp [keyOf, ha, hb, h]

theorem keyOf_alike {s : Schema} {role : Role} {a b : Node} (h : a.Alike b) :
    keyOf s role a = keyOf s role b :=
  keyOf_of_itemKey (fun _ _ => Merge.itemKey_alike h) h.fingerprint

theorem recordOf_alike {s : Schema} {role : Role} {a b : Node} (h : a.Alike b) :
    recordOf s role a = recordOf s role b := by
  cases role with
  | unknown | type => rfl
  | property p => simp [recordOf, Schema.recordFor, h.typeName]

theorem itemRole_alike {s : Schema} {role : Role} {a b : Node} (h : a.Alike b) :
    itemRole s role a = itemRole s role b := by
  cases role with
  | unknown | type => rfl
  | property p => simp [itemRole, Schema.recordFor, h.typeName]

section
variable {s : Schema} {target : Scope.Path} {role : Role} (r : Role)
  (previous ancestor : Option Node) (n : Node)

theorem recordOf_stamp :
    recordOf s role (stamp s target r previous ancestor n) = recordOf s role n :=
  recordOf_alike (alike_stamp s target r previous ancestor n)

theorem itemRole_stamp :
    itemRole s role (stamp s target r previous ancestor n) = itemRole s role n :=
  itemRole_alike (alike_stamp s target r previous ancestor n)

theorem keyOf_stamp : keyOf s role (stamp s target r previous ancestor n) = keyOf s role n :=
  keyOf_alike (alike_stamp s target r previous ancestor n)

end

theorem withKey_alike {s : Schema} {role : Role} {xs ys : List Node} {key : String} {x : Node}
    (h : List.Forall₂ Alike xs ys) (hx : withKey s role (some xs) key = some x) :
    ∃ y, withKey s role (some ys) key = some y ∧ x.Alike y := by
  unfold withKey at *
  simp only [Option.getD_some] at *
  induction h with
  | nil => cases hx
  | @cons a b as bs hab _ ih =>
    rw [List.find?_cons] at hx ⊢
    rw [← keyOf_alike hab]
    cases hkey : keyOf s role a == key with
    | true =>
      rw [hkey] at hx
      cases hx
      exact ⟨b, rfl, hab⟩
    | false =>
      rw [hkey] at hx
      exact ih hx

end Stamp

end ScopedConfig
