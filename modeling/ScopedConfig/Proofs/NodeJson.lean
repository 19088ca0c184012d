import ScopedConfig.Proofs.Except
import ScopedConfig.Proofs.JsonText
import ScopedConfig.Proofs.Node
import ScopedConfig.Proofs.PathText
import ScopedConfig.Store.Snapshot

/-!
# Nodes and snapshots read back

The JSON form of a node stands for that node if the paths in it can be read back from their texts,
its keys are in order, and 64 bits hold its versions. Snapshot documents then read back as text.
-/

namespace ScopedConfig

open Decode
open ScopedConfig.Except

/-- The path can be read back from its text. -/
def Scope.Path.isReadable (p : Scope.Path) : Bool := (parse p.text).toOption == some p

theorem Scope.Path.parse_text {p : Scope.Path} (h : p.isReadable = true) :
    parse p.text = .ok p := by
  unfold isReadable at h
  cases hparse : parse p.text with
  | error fault => simp [hparse, Except.toOption] at h
  | ok q => simpa [hparse, Except.toOption] using h

theorem Scope.Path.text_inj {p q : Scope.Path} (hp : p.isReadable = true) (hq : q.isReadable = true)
    (h : p.text = q.text) : p = q := by
  have := parse_text hp
  rw [h, parse_text hq] at this
  simpa using this.symm

theorem Json.asPath_text {p : Scope.Path} (h : p.isReadable = true) :
    Json.asPath (.str p.text) = .ok p := by
  have hread := Scope.Path.parse_text h
  simp [asPath, asText, hread, mapError_ok, bind, Except.bind]

/-! ## Metadata -/

namespace Info

def isStorable (i : Info) : Bool :=
  i.definedAt.isReadable && Text.fitsInt64 i.version && Text.fitsInt64 i.parentVersion

theorem ofJson_toJson (s : Standing) {i : Info} (h : i.isStorable = true) :
    Info.ofJson s i.toJson = .ok i := by
  simp only [isStorable, Bool.and_eq_true] at h
  obtain ⟨⟨hpath, hversion⟩, hparent⟩ := h
  have hread := Json.asPath_text hpath
  obtain ⟨definedAt, typeName, propertyName, polymorphic, version, parentScope, parentVersion⟩ := i
  cases propertyName <;> cases parentScope <;>
    simp_all [Info.ofJson, toJson, RecordForm.named, Draft.read, Json.once, Json.asText,
      Json.asTextOrNull, Json.asBool, Json.asInt64, RecordForm.require, RecordForm.checkLength,
      Except.map, bind, Except.bind, pure, Except.pure]

theorem covers_toJson {want : Json.Want} (hwant : want.isNothing = false)
    (hmember : ∀ key ∈ form.fields, (want.member key).isNothing = false) {i : Info}
    (h : i.isStorable = true) : Json.Reader.covers want i.toJson = true := by
  simp only [isStorable, Bool.and_eq_true] at h
  simp only [form, List.forall_mem_cons] at hmember
  obtain ⟨definedAt, typeName, propertyName, polymorphic, version, parentScope, parentVersion⟩ := i
  cases propertyName <;> cases parentScope <;>
    simp_all [toJson, Json.Reader.covers, Json.Reader.coversMembers]

end Info

/-! ## Nodes -/

namespace Node

mutual

/-- Every path in the node can be read back from its text, 64 bits hold the versions, and the names
and keys are in strict order. -/
def isStorable : Node → Bool
  | simple i _ | list i none | set i none | map i none => i.isStorable
  | complex i own declared =>
    i.isStorable && decide (Keyed.Sorted own) &&
      decide (declared.Pairwise fun a b => compare a b = .lt) && fieldsStorable own
  | list i (some own) | set i (some own) => i.isStorable && itemsStorable own
  | map i (some own) => i.isStorable && decide (Keyed.Sorted own) && fieldsStorable own

def fieldsStorable : List (String × Node) → Bool
  | [] => true
  | (_, n) :: rest => n.isStorable && fieldsStorable rest

def itemsStorable : List Node → Bool
  | [] => true
  | n :: rest => n.isStorable && itemsStorable rest

end

theorem info_storable {n : Node} (h : n.isStorable = true) : n.info.isStorable = true := by
  cases n with
  | simple => simpa [isStorable, info] using h
  | complex => simp_all [isStorable, info]
  | list i own | set i own | map i own => cases own <;> simp_all [isStorable, info]

/-- If it can be stored, the node is what its JSON form stands for, wherever that stands. -/
def ReadsBack (n : Node) : Prop := n.isStorable = true → ∀ s, read s n.toJson = .ok n

theorem fieldsStorable_iff {own : List (String × Node)} :
    fieldsStorable own = true ↔ ∀ e ∈ own, e.2.isStorable = true := by
  induction own with
  | nil => simp [fieldsStorable]
  | cons e rest ih => simp [fieldsStorable, ih]

theorem itemsStorable_iff {own : List Node} :
    itemsStorable own = true ↔ ∀ n ∈ own, n.isStorable = true := by
  induction own with
  | nil => simp [itemsStorable]
  | cons n rest ih => simp [itemsStorable, ih]

theorem fieldsToJson_eq (own : List (String × Node)) :
    fieldsToJson own = own.map fun e => (e.1, e.2.toJson) := by
  induction own with
  | nil => rfl
  | cons e rest ih => simp [fieldsToJson, ih]

theorem itemsToJson_eq (own : List Node) : itemsToJson own = own.map toJson := by
  induction own with
  | nil => rfl
  | cons n rest ih => simp [itemsToJson, ih]

theorem readNamed_map (form : Node → Json) {own : List (String × Node)}
    (h : ∀ e ∈ own, read .within (form e.2) = .ok e.2) :
    readNamed (own.map fun e => (e.1, form e.2)) = .ok own := by
  induction own with
  | nil => rfl
  | cons e rest ih =>
    rw [List.forall_mem_cons] at h
    simp [readNamed, h.1, ih h.2, bind, Except.bind, pure, Except.pure]

theorem readNodes_map (form : Node → Json) {own : List Node}
    (h : ∀ n ∈ own, read .within (form n) = .ok n) : readNodes (own.map form) = .ok own := by
  induction own with
  | nil => rfl
  | cons n rest ih =>
    rw [List.forall_mem_cons] at h
    simp [readNodes, h.1, ih h.2, bind, Except.bind, pure, Except.pure]

theorem readNamed_fields {own : List (String × Node)} (hown : ∀ e ∈ own, ReadsBack e.2)
    (h : fieldsStorable own = true) : readNamed (fieldsToJson own) = .ok own := by
  rw [fieldsToJson_eq]
  exact readNamed_map toJson fun e he => hown e he (fieldsStorable_iff.1 h e he) .within

theorem readNodes_items {own : List Node} (hown : ∀ n ∈ own, ReadsBack n)
    (h : itemsStorable own = true) : readNodes (itemsToJson own) = .ok own := by
  rw [itemsToJson_eq]
  exact readNodes_map toJson fun n hn => hown n hn (itemsStorable_iff.1 h n hn) .within

theorem asTexts_strings (texts : List String) :
    Json.asTexts (.arr (texts.map .str)) = .ok texts := by
  rw [Json.asTexts]
  induction texts with
  | nil => rfl
  | cons t rest ih =>
    simp [Json.asText, ih, bind, Except.bind, pure, Except.pure]

theorem kind_ofJson_name (s : Standing) (kind : Kind) :
    Kind.ofJson s (.str kind.name) = .ok kind := by
  cases kind <;> rfl

theorem read_parts {s : Standing} {i : Info} {info : Json} (kind : Kind)
    {members : List (String × Json)} {n : Node} (hinfo : Info.ofJson s info = .ok i)
    (hkind : (members.filter fun m => m.1 == "kind") = [("kind", .str kind.name)])
    (hcontent : ∃ d f, readFields kind {} members = .ok d ∧ d.finish kind = .ok f ∧ f i = n) :
    read s (.obj [("meta", info), ("value", .obj members)]) = .ok n := by
  obtain ⟨d, f, hfields, hfinish, rfl⟩ := hcontent
  have htag : kindOf s members = .ok kind := by
    simp [kindOf, hkind, kind_ofJson_name, bind, Except.bind, pure, Except.pure]
  have hread : readContent s (.obj members) = .ok f := by
    simp [readContent, htag, hfields, hfinish, bind, Except.bind]
  simp [read, readMembers, hinfo, hread, Json.once, Draft.finish, bind, Except.bind, Except.map]

theorem readFields_filter (kind : Kind) (d : ContentDraft) (members : List (String × Json)) :
    readFields kind d (members.filter fun m => !(m.1 == "kind")) = readFields kind d members := by
  induction members generalizing d with
  | nil => rfl
  | cons m rest ih =>
    obtain ⟨key, j⟩ := m
    by_cases hkey : key = "kind"
    · subst hkey
      cases kind <;> simp [readFields, ih]
    · simp only [List.filter_cons, hkey, not_false_eq_true, Bool.not_eq_true',
        beq_eq_false_iff_ne, ne_eq, if_true]
      unfold readFields
      split <;> simp [ih]

theorem read_withMeta {i : Info} {kind : Kind} {content : List (String × Json)} {n : Node}
    (s : Standing) (hi : i.isStorable = true) (hkind : ∀ m ∈ content, m.1 ≠ "kind")
    (hcontent : ∃ d f, readFields kind {} content = .ok d ∧ d.finish kind = .ok f ∧ f i = n) :
    read s (toJson.withMeta i kind content) = .ok n := by
  refine read_parts kind (Info.ofJson_toJson s hi) ?_ ?_
  · have hfilter : (content.filter fun m => m.1 == "kind") = [] := by
      simpa using hkind
    simp [hfilter]
  · have hfilter : (content.filter fun m => !(m.1 == "kind")) = content := by
      simpa using hkind
    rw [← readFields_filter]
    simpa [hfilter] using hcontent

theorem read_toJson (n : Node) : ReadsBack n := by
  induction n using tree_induction with
  | simple i text =>
    intro h s
    rw [isStorable] at h
    rw [toJson]
    refine read_withMeta s h (by simp) ⟨{ text := some text }, _, ?_, rfl, rfl⟩
    cases text <;> rfl
  | complex i own declared ih =>
    intro h s
    simp only [isStorable, Bool.and_eq_true, decide_eq_true_eq] at h
    obtain ⟨⟨⟨hi, hsorted⟩, hdeclared⟩, hown⟩ := h
    let draft : ContentDraft := { properties := some own, declared := some declared }
    have hdraft : draft.finish .complex = .ok fun i => complex i own declared := by
      simp [draft, ContentDraft.finish, Keyed.keySet_of_sorted hdeclared]
    rw [toJson]
    refine read_withMeta s hi (by simp) ⟨_, _, ?_, hdraft, rfl⟩
    simp [draft, readFields, Json.once, readTable, readNamed_fields ih hown, asTexts_strings,
      Keyed.ofList_of_sorted hsorted, bind, Except.bind, Except.map]
  | absentList i | absentSet i | absentMap i =>
    intro h s
    rw [isStorable] at h
    rw [toJson]
    refine read_withMeta s h (by simp) ⟨_, _, rfl, rfl, rfl⟩
  | list i own ih | set i own ih =>
    intro h s
    simp only [isStorable, Bool.and_eq_true] at h
    rw [toJson]
    refine read_withMeta s h.1 (by simp) ⟨{ items := some (some own) }, _, ?_, rfl, rfl⟩
    simp [readFields, Json.once, readItems, readNodes_items ih h.2, bind, Except.bind, Except.map]
  | map i own ih =>
    intro h s
    simp only [isStorable, Bool.and_eq_true, decide_eq_true_eq] at h
    obtain ⟨⟨hi, hsorted⟩, hown⟩ := h
    rw [toJson]
    refine read_withMeta s hi (by simp) ⟨{ entries := some (some own) }, _, ?_, rfl, rfl⟩
    simp [readFields, Json.once, readEntries, readNamed_fields ih hown,
      Keyed.ofList_of_sorted hsorted, bind, Except.bind, Except.map]

/-! ## What documents want -/

open Json.Reader in
theorem covers_fields {own : List (String × Node)}
    (hown : ∀ e ∈ own, e.2.isStorable = true → covers .everything e.2.toJson = true)
    (h : fieldsStorable own = true) : coversMembers .everything (fieldsToJson own) = true := by
  induction own with
  | nil => rfl
  | cons e rest ih =>
    obtain ⟨k, n⟩ := e
    rw [List.forall_mem_cons] at hown
    rw [fieldsStorable, Bool.and_eq_true] at h
    have hn : covers .everything n.toJson = true := hown.1 h.1
    simp [fieldsToJson, coversMembers, Json.Want.member, hn, ih hown.2 h.2]

open Json.Reader in
theorem covers_items {own : List Node}
    (hown : ∀ n ∈ own, n.isStorable = true → covers .everything n.toJson = true)
    (h : itemsStorable own = true) : coversItems .everything (itemsToJson own) = true := by
  induction own with
  | nil => rfl
  | cons n rest ih =>
    rw [List.forall_mem_cons] at hown
    rw [itemsStorable, Bool.and_eq_true] at h
    simp [itemsToJson, coversItems, Json.Want.item, hown.1 h.1, ih hown.2 h.2]

open Json.Reader in
theorem covers_strings (texts : List String) :
    coversItems .everything (texts.map .str) = true := by
  induction texts with
  | nil => rfl
  | cons t rest ih => simp [coversItems, covers, Json.Want.item, Json.Want.isNothing, ih]

/-- What is wanted of a node includes its whole content, and of its metadata all fields. -/
structure Wanted (want : Json.Want) : Prop where
  some : want.isNothing = false
  info : (want.member "meta").isNothing = false
  fields : ∀ key ∈ Info.form.fields, ((want.member "meta").member key).isNothing = false
  content : want.member "value" = .everything

theorem wanted_everything : Wanted .everything :=
  ⟨rfl, rfl, fun _ _ => rfl, rfl⟩

open Json.Reader in
theorem covers_withMeta {want : Json.Want} (hwant : Wanted want) {i : Info}
    (hi : i.isStorable = true) {kind : Kind} {content : List (String × Json)}
    (hcontent : coversMembers .everything content = true) :
    covers want (toJson.withMeta i kind content) = true := by
  have hinfo := Info.covers_toJson hwant.info hwant.fields hi
  have hkind : Json.Want.everything.member "kind" = .everything := rfl
  have hall : Json.Want.everything.isNothing = false := rfl
  simp only [toJson.withMeta, covers, coversMembers, hwant.some, hwant.content, hinfo, hkind, hall,
    hcontent]
  rfl

open Json.Reader in
theorem covers_toJson {n : Node} (h : n.isStorable = true) {want : Json.Want}
    (hwant : Wanted want) : covers want n.toJson = true := by
  induction n using tree_induction generalizing want with
  | simple i text =>
    rw [isStorable] at h
    rw [toJson]
    refine covers_withMeta hwant h ?_
    cases text <;> rfl
  | complex i own declared ih =>
    simp only [isStorable, Bool.and_eq_true] at h
    have hown := covers_fields (fun e he h => ih e he h wanted_everything) h.2
    rw [toJson]
    refine covers_withMeta hwant h.1.1.1 ?_
    simp [coversMembers, covers, hown, covers_strings, Json.Want.isNothing, Json.Want.member]
  | absentList i | absentSet i | absentMap i =>
    rw [isStorable] at h
    rw [toJson]
    exact covers_withMeta hwant h rfl
  | list i own ih | set i own ih =>
    simp only [isStorable, Bool.and_eq_true] at h
    have hown := covers_items (fun n hn h => ih n hn h wanted_everything) h.2
    rw [toJson]
    refine covers_withMeta hwant h.1 ?_
    simp [coversMembers, covers, hown, Json.Want.isNothing, Json.Want.member]
  | map i own ih =>
    simp only [isStorable, Bool.and_eq_true] at h
    have hown := covers_fields (fun e he h => ih e he h wanted_everything) h.2
    rw [toJson]
    refine covers_withMeta hwant h.1.1 ?_
    simp [coversMembers, covers, hown, Json.Want.isNothing, Json.Want.member]

end Node

/-! ## Snapshots -/

namespace Snapshot

theorem ofJson_toJson {s : Snapshot} (hpath : s.path.isReadable = true)
    (hnode : s.node.isStorable = true) : ofJson s.toJson = .ok s := by
  have hp := Json.asPath_text hpath
  have hn : Node.ofJson s.node.toJson = .ok s.node := Node.read_toJson s.node hnode .direct
  simp [ofJson, toJson, RecordForm.named, Draft.read, Json.once, hp, hn, RecordForm.require,
    RecordForm.checkLength, bind, Except.bind, pure, Except.pure, Except.map]

theorem covers_toJson {s : Snapshot} (hnode : s.node.isStorable = true) :
    Json.Reader.covers want s.toJson = true := by
  have hwanted : Node.Wanted (want.member "node") := by
    refine ⟨rfl, rfl, ?_, rfl⟩
    decide
  have hn := Node.covers_toJson hnode hwanted
  simp [toJson, Json.Reader.covers, Json.Reader.coversMembers, hn]
  decide

/-- A snapshot is read from its own text if that nests no deeper than what can be read. -/
theorem ofText_text {s : Snapshot} {depth : Nat} (hpath : s.path.isReadable = true)
    (hnode : s.node.isStorable = true) (hdepth : s.toJson.depth ≤ depth) :
    ofText depth s.text = .ok s := by
  rw [ofText, text, Json.parse_pretty (covers_toJson hnode) hdepth]
  simp only [ofJson_toJson hpath hnode, mapError_ok]

end Snapshot

end ScopedConfig
