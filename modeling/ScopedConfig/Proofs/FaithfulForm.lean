import ScopedConfig.Proofs.NodeJson
import ScopedConfig.Proofs.Run

/-!
# JSON forms stand for nodes

Nodes and snapshots are read back from their JSON forms, whether the members of the objects stand
as they are declared or in the order of their keys. So different nodes have different forms.
-/

namespace ScopedConfig

open Decode

theorem Json.sortedMembers_eq (members : List (String × Json)) :
    Json.sortedMembers members = members.map fun m => (m.1, m.2.sorted) := by
  induction members with
  | nil => rfl
  | cons m rest ih => simp [Json.sortedMembers, ih]

theorem Json.sortedItems_eq (items : List Json) :
    Json.sortedItems items = items.map Json.sorted := by
  induction items with
  | nil => rfl
  | cons j rest ih => simp [Json.sortedItems, ih]

/-! ## Metadata -/

namespace Info

/-- The members of the metadata in the order of their keys. -/
def sortedMembers (i : Info) : List (String × Json) :=
  [("defining_scope_path", .str i.definedAt.text)] ++
  (match i.parentScope with
    | some name => [("parent_scope_name", .str name)]
    | none => []) ++
  [("parent_version", .int i.parentVersion), ("polymorph", .bool i.polymorphic)] ++
  (match i.propertyName with
    | some name => [("property_name", .str name)]
    | none => []) ++
  [("property_type", .str i.typeName), ("version", .int i.version)]

theorem sorted_toJson (i : Info) : i.toJson.sorted = .obj i.sortedMembers := by
  obtain ⟨definedAt, typeName, propertyName, polymorphic, version, parentScope, parentVersion⟩ := i
  cases propertyName <;> cases parentScope <;>
    simp (disch := decide +kernel) [toJson, sortedMembers, Json.sorted, Json.sortedMembers,
      Keyed.ofList, Keyed.insert_nil, Keyed.insert_before, Keyed.insert_after]

theorem ofJson_sorted (s : Standing) {i : Info} (h : i.isStorable = true) :
    Info.ofJson s i.toJson.sorted = .ok i := by
  simp only [isStorable, Bool.and_eq_true] at h
  obtain ⟨⟨hpath, hversion⟩, hparent⟩ := h
  have hread := Json.asPath_text hpath
  rw [sorted_toJson]
  obtain ⟨definedAt, typeName, propertyName, polymorphic, version, parentScope, parentVersion⟩ := i
  cases propertyName <;> cases parentScope <;>
    simp_all [Info.ofJson, sortedMembers, RecordForm.named, Draft.read, Json.once, Json.asText,
      Json.asTextOrNull, Json.asBool, Json.asInt64, RecordForm.require, RecordForm.checkLength,
      Except.map, bind, Except.bind, pure, Except.pure]

end Info

/-! ## Nodes -/

namespace Node

theorem sorted_withMeta (i : Info) (kind : Kind) (content : List (String × Json)) :
    (toJson.withMeta i kind content).sorted =
      .obj [("meta", i.toJson.sorted),
        ("value",
          .obj (Keyed.ofList (Json.sortedMembers (("kind", .str kind.name) :: content))))] := by
  simp (disch := decide +kernel) [toJson.withMeta, Json.sorted, Json.sortedMembers, Keyed.ofList,
    Keyed.insert_nil, Keyed.insert_after]

theorem sorted_fields {own : List (String × Node)} (h : Keyed.Sorted own) :
    (Json.obj (fieldsToJson own)).sorted = .obj (own.map fun e => (e.1, e.2.toJson.sorted)) := by
  have hsorted : Keyed.Sorted (own.map fun e => (e.1, e.2.toJson.sorted)) :=
    (Keyed.sorted_congr (by simp)).1 h
  simp [Json.sorted, Json.sortedMembers_eq, fieldsToJson_eq, Function.comp_def,
    Keyed.ofList_of_sorted hsorted]

theorem sorted_items (own : List Node) :
    (Json.arr (itemsToJson own)).sorted = .arr (own.map fun n => n.toJson.sorted) := by
  simp [Json.sorted, Json.sortedItems_eq, itemsToJson_eq]

theorem sorted_strings (texts : List String) :
    (Json.arr (texts.map .str)).sorted = .arr (texts.map .str) := by
  simp [Json.sorted, Json.sortedItems_eq]

theorem sorted_field (kind : Kind) {key : String} (j : Json) (hkey : key ≠ "kind") :
    Keyed.ofList (Json.sortedMembers [("kind", .str kind.name), (key, j)]) =
      if compare key "kind" = .lt then [(key, j.sorted), ("kind", .str kind.name)]
      else [("kind", .str kind.name), (key, j.sorted)] := by
  cases hc : compare key "kind" with
  | lt | gt => simp [Json.sortedMembers, Json.sorted, Keyed.ofList, Keyed.insert, hc]
  | eq => exact absurd (Std.LawfulEqOrd.eq_of_compare hc) hkey

theorem sorted_content (properties declared : Json) :
    Keyed.ofList (Json.sortedMembers [("kind", .str Kind.complex.name), ("properties", properties),
        ("declared_properties", declared)]) =
      [("declared_properties", declared.sorted), ("kind", .str Kind.complex.name),
        ("properties", properties.sorted)] := by
  simp (disch := decide +kernel) [Json.sortedMembers, Json.sorted, Keyed.ofList, Keyed.insert_nil,
    Keyed.insert_before, Keyed.insert_after]

theorem read_field {s : Standing} {i : Info} {kind : Kind} {key : String} {j : Json} {n : Node}
    (hi : i.isStorable = true) (hkey : key ≠ "kind")
    (hcontent : ∃ d f, readFields kind {} [(key, j.sorted)] = .ok d ∧ d.finish kind = .ok f ∧
      f i = n) :
    read s (toJson.withMeta i kind [(key, j)]).sorted = .ok n := by
  rw [sorted_withMeta, sorted_field kind j hkey]
  refine read_parts kind (Info.ofJson_sorted s hi) ?_ ?_
  · split <;> simp [hkey]
  · rw [← readFields_filter]
    split <;> simpa [hkey] using hcontent

/-- A node that can be stored is read back from its JSON form in the order of the keys. -/
theorem read_sorted (n : Node) (h : n.isStorable = true) (s : Standing) :
    read s n.toJson.sorted = .ok n := by
  induction n using tree_induction generalizing s with
  | simple i text =>
    rw [isStorable] at h
    rw [toJson]
    refine read_field h (by decide) ⟨{ text := some text }, _, ?_, rfl, rfl⟩
    cases text <;> rfl
  | complex i own declared ih =>
    simp only [isStorable, Bool.and_eq_true, decide_eq_true_eq] at h
    obtain ⟨⟨⟨hi, hsorted⟩, hdeclared⟩, hown⟩ := h
    have hread : readNamed (own.map fun e => (e.1, e.2.toJson.sorted)) = .ok own :=
      readNamed_map (fun n => n.toJson.sorted) fun e he =>
        ih e he (fieldsStorable_iff.1 hown e he) .within
    let draft : ContentDraft := { properties := some own, declared := some declared }
    have hdraft : draft.finish .complex = .ok fun i => complex i own declared := by
      simp [draft, ContentDraft.finish, Keyed.keySet_of_sorted hdeclared]
    rw [toJson, sorted_withMeta, sorted_content, sorted_fields hsorted, sorted_strings]
    refine read_parts .complex (Info.ofJson_sorted s hi) rfl ⟨_, _, ?_, hdraft, rfl⟩
    simp [draft, readFields, Json.once, readTable, hread, asTexts_strings,
      Keyed.ofList_of_sorted hsorted, bind, Except.bind, Except.map]
  | absentList i | absentSet i | absentMap i =>
    rw [isStorable] at h
    rw [toJson]
    exact read_field h (by decide) ⟨_, _, rfl, rfl, rfl⟩
  | list i own ih | set i own ih =>
    simp only [isStorable, Bool.and_eq_true] at h
    have hown : readNodes (own.map fun n => n.toJson.sorted) = .ok own :=
      readNodes_map (fun n => n.toJson.sorted) fun n hn =>
        ih n hn (itemsStorable_iff.1 h.2 n hn) .within
    rw [toJson]
    refine read_field h.1 (by decide) ⟨{ items := some (some own) }, _, ?_, rfl, rfl⟩
    rw [sorted_items]
    simp [readFields, Json.once, readItems, hown, bind, Except.bind, Except.map]
  | map i own ih =>
    simp only [isStorable, Bool.and_eq_true, decide_eq_true_eq] at h
    obtain ⟨⟨hi, hsorted⟩, hown⟩ := h
    have hread : readNamed (own.map fun e => (e.1, e.2.toJson.sorted)) = .ok own :=
      readNamed_map (fun n => n.toJson.sorted) fun e he =>
        ih e he (fieldsStorable_iff.1 hown e he) .within
    rw [toJson]
    refine read_field hi (by decide) ⟨{ entries := some (some own) }, _, ?_, rfl, rfl⟩
    rw [sorted_fields hsorted]
    simp [readFields, Json.once, readEntries, hread, Keyed.ofList_of_sorted hsorted, bind,
      Except.bind, Except.map]

end Node

/-! ## Snapshots -/

namespace Snapshot

theorem ofJson_sorted {s : Snapshot} (hpath : s.path.isReadable = true)
    (hnode : s.node.isStorable = true) : ofJson s.toJson.sorted = .ok s := by
  have hp := Json.asPath_text hpath
  have hn : Node.ofJson s.node.toJson.sorted = .ok s.node := Node.read_sorted s.node hnode .direct
  have hform : s.toJson.sorted =
      .obj [("node", s.node.toJson.sorted), ("scope_path", .str s.path.text)] := by
    simp (disch := decide +kernel) [toJson, Json.sorted, Json.sortedMembers, Keyed.ofList,
      Keyed.insert_nil, Keyed.insert_before]
  rw [hform]
  simp [ofJson, RecordForm.named, Draft.read, Json.once, hp, hn, RecordForm.require,
    RecordForm.checkLength, bind, Except.bind, pure, Except.pure, Except.map]

end Snapshot

/-! ## Faithful forms -/

/-- A node that can be stored is read back from its JSON form, in whichever order the members stand,
and no other such node has this form. The same is true of the documents of its snapshots, and of
their texts if these nest no deeper than what can be read. -/
theorem json_form_faithful {n : Node} (h : n.isStorable = true) :
    (Node.ofJson n.toJson = .ok n ∧ Node.ofJson n.toJson.sorted = .ok n ∧
      ∀ m : Node, m.isStorable = true → m.toJson = n.toJson → m = n) ∧
      ∀ path : Scope.Path, path.isReadable = true →
        Snapshot.ofJson (Snapshot.toJson ⟨path, n⟩) = .ok ⟨path, n⟩ ∧
          Snapshot.ofJson (Snapshot.toJson ⟨path, n⟩).sorted = .ok ⟨path, n⟩ ∧
          (∀ s : Snapshot, s.path.isReadable = true → s.node.isStorable = true →
            s.toJson = Snapshot.toJson ⟨path, n⟩ → s = ⟨path, n⟩) ∧
          ∀ depth, (Snapshot.toJson ⟨path, n⟩).depth ≤ depth →
            Snapshot.ofText depth (Snapshot.text ⟨path, n⟩) = .ok ⟨path, n⟩ := by
  have hread (m : Node) (hm : m.isStorable = true) : Node.ofJson m.toJson = .ok m :=
    Node.read_toJson m hm .direct
  refine ⟨⟨hread n h, Node.read_sorted n h .direct, fun m hm hform => ?_⟩, fun path hpath => ?_⟩
  · have hsame := hread m hm
    rw [hform, hread n h] at hsame
    exact (Except.ok.inj hsame).symm
  · have hsnapshot : Snapshot.ofJson (Snapshot.toJson ⟨path, n⟩) = .ok ⟨path, n⟩ :=
      Snapshot.ofJson_toJson hpath h
    refine ⟨hsnapshot, Snapshot.ofJson_sorted hpath h, fun s hs hnode hform => ?_,
      fun depth hdepth => Snapshot.ofText_text hpath h hdepth⟩
    have hsame := Snapshot.ofJson_toJson hs hnode
    rw [hform, hsnapshot] at hsame
    exact (Except.ok.inj hsame).symm

namespace Sample

/-- Collections that are absent and that are empty, a text that is absent, and items that are not
sorted. -/
def mixed : Node :=
  let part (name : String) : Info :=
    { definedAt := alice, typeName := "any", propertyName := some name, polymorphic := true }
  .complex { definedAt := alice, typeName := "App", version := 3, parentScope := some "global" }
    [("hosts", .set (part "hosts") none), ("motd", .simple (part "motd") none),
      ("ports", .list (part "ports")
        (some [.simple (part "ports") (some "80"), .simple (part "ports") (some "22")])),
      ("tags", .map (part "tags") (some []))]
    ["motd", "tags"]

theorem mixed_read_back :
    mixed.isStorable = true ∧ Node.ofJson mixed.toJson.sorted = .ok mixed ∧
      Snapshot.ofText 127 (Snapshot.text ⟨alice, mixed⟩) = .ok ⟨alice, mixed⟩ := by
  have hpath : alice.isReadable = true := by decide +kernel
  have hstorable : mixed.isStorable = true := by
    simp [mixed, Node.isStorable, Node.fieldsStorable, Node.itemsStorable, Info.isStorable, hpath]
    decide
  obtain ⟨⟨-, hsorted, -⟩, hsnapshot⟩ := json_form_faithful hstorable
  exact ⟨hstorable, hsorted, (hsnapshot alice hpath).2.2.2 127 (by decide +kernel)⟩

end Sample

end ScopedConfig
