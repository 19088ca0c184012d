import ScopedConfig.Proofs.Node
import ScopedConfig.Stamp

/-!
# What a stamp keeps

Stamping writes bookkeeping and nothing else, so a stamped node has the content of the node that was
given.
-/

namespace ScopedConfig.Stamp

open Schema Node

variable (s : Schema) (target : Scope.Path)

/-! ## One node -/

@[simp] theorem info_stamp (role : Role) (previous ancestor : Option Node) (n : Node) :
    (stamp s target role previous ancestor n).info = stampInfo target previous ancestor n := by
  cases n with
  | simple | complex => simp [stamp, Node.info]
  | list _ own | set _ own | map _ own => cases own <;> simp [stamp, Node.info]

@[simp] theorem kind_stamp (role : Role) (previous ancestor : Option Node) (n : Node) :
    (stamp s target role previous ancestor n).kind = n.kind := by
  cases n with
  | simple | complex => simp [stamp, Node.kind]
  | list _ own | set _ own | map _ own => cases own <;> simp [stamp, Node.kind]

@[simp] theorem definedAt_stamp (role : Role) (previous ancestor : Option Node) (n : Node) :
    (stamp s target role previous ancestor n).definedAt = target := by
  simp [Node.definedAt, stampInfo]

@[simp] theorem version_stamp (role : Role) (previous ancestor : Option Node) (n : Node) :
    (stamp s target role previous ancestor n).version = versionAfter previous n := by
  simp [Node.version, stampInfo]

/-! ## The nodes below -/

theorem lookup_stampProperties (record : Option Record) (previous ancestor : Option Node)
    (own : List (String × Node)) (name : String) :
    (stampProperties s target record previous ancestor own).lookup name =
      (own.lookup name).map (stamp s target (propertyRole record name)
        (previous.bind fun p => p.property? name) (ancestor.bind fun a => a.property? name)) := by
  induction own with
  | nil => rfl
  | cons e rest ih =>
    obtain ⟨k, child⟩ := e
    rw [stampProperties, List.lookup_cons, List.lookup_cons]
    cases h : name == k with
    | false => exact ih
    | true =>
      obtain rfl : name = k := eq_of_beq h
      rfl

theorem property?_stamp (role : Role) (previous ancestor : Option Node) (n : Node) (name : String) :
    (stamp s target role previous ancestor n).property? name =
      (n.property? name).map (stamp s target (propertyRole (recordOf s role n) name)
        (previous.bind fun p => p.property? name) (ancestor.bind fun a => a.property? name)) := by
  cases n with
  | simple => rfl
  | complex info own declared =>
    simp only [stamp, Node.property?, properties?, Option.bind_some]
    exact lookup_stampProperties s target _ previous ancestor own name
  | list _ own | set _ own | map _ own => cases own <;> simp [stamp, Node.property?, properties?]

theorem lookup_stampEntries (role : Role) (previous ancestor : Option Node)
    (own : List (String × Node)) (key : String) :
    (stampEntries s target role previous ancestor own).lookup key =
      (own.lookup key).map fun n => stamp s target (itemRole s role n)
        (previous.bind fun p => p.entries?.bind fun es => es.lookup key)
        (ancestor.bind fun a => a.entries?.bind fun es => es.lookup key) n := by
  induction own with
  | nil => rfl
  | cons e rest ih =>
    obtain ⟨k, n⟩ := e
    rw [stampEntries, List.lookup_cons, List.lookup_cons]
    cases h : key == k with
    | false => exact ih
    | true =>
      obtain rfl : key = k := eq_of_beq h
      rfl

theorem lookup_entries_stamp (role : Role) (previous ancestor : Option Node) (n : Node)
    (key : String) :
    ((stamp s target role previous ancestor n).entries?.bind fun es => es.lookup key) =
      (n.entries?.bind fun es => es.lookup key).map fun child =>
        stamp s target (itemRole s role child)
          (previous.bind fun p => p.entries?.bind fun es => es.lookup key)
          (ancestor.bind fun a => a.entries?.bind fun es => es.lookup key) child := by
  cases n with
  | simple | complex => simp [stamp, entries?]
  | list _ own | set _ own => cases own <;> simp [stamp, entries?]
  | map _ own =>
    cases own with
    | none => simp [stamp, entries?]
    | some own => simp [stamp, entries?, lookup_stampEntries]

theorem getElem?_stampList (role : Role) (previous ancestor own : List Node) (i : Nat) :
    (stampList s target role previous ancestor own)[i]? =
      own[i]?.map fun n => stamp s target (itemRole s role n) previous[i]? ancestor[i]? n := by
  induction own generalizing previous ancestor i with
  | nil => simp [stampList]
  | cons n rest ih =>
    cases i with
    | zero => simp [stampList, List.head?_eq_getElem?]
    | succ i => simp [stampList, ih]

section
variable {s target}

theorem eq_of_stamp_list {role : Role} {previous ancestor : Option Node} {n : Node} {info : Info}
    {own : List Node} (h : stamp s target role previous ancestor n = .list info (some own)) :
    ∃ above given, own =
      stampList s target role ((previous.bind Node.items?).getD []) above given := by
  cases n with
  | simple | complex => simp [stamp] at h
  | list _ given =>
    cases given with
    | none => simp [stamp] at h
    | some given => exact ⟨_, given, (Option.some.inj (list.inj h).2).symm⟩
  | set _ given | map _ given => cases given <;> simp [stamp] at h

theorem eq_of_stamp_set {role : Role} {previous ancestor : Option Node} {n : Node} {info : Info}
    {own : List Node} (h : stamp s target role previous ancestor n = .set info (some own)) :
    ∃ above given, own = stampSet s target role (previous.bind Node.items?) above given := by
  cases n with
  | simple | complex => simp [stamp] at h
  | set _ given =>
    cases given with
    | none => simp [stamp] at h
    | some given => exact ⟨_, given, (Option.some.inj (set.inj h).2).symm⟩
  | list _ given | map _ given => cases given <;> simp [stamp] at h

theorem mem_stampSet {role : Role} {previous ancestor : Option (List Node)} {own : List Node}
    {n : Node} (h : n ∈ stampSet s target role previous ancestor own) :
    ∃ given ∈ own, n = stamp s target (itemRole s role given)
      (withKey s role previous (keyOf s role given)) (withKey s role ancestor (keyOf s role given))
      given := by
  induction own with
  | nil => cases h
  | cons item rest ih =>
    rw [stampSet, List.mem_cons] at h
    rcases h with rfl | h
    · exact ⟨item, List.mem_cons_self, rfl⟩
    · obtain ⟨given, hgiven, hn⟩ := ih h
      exact ⟨given, List.mem_cons_of_mem _ hgiven, hn⟩

end

/-! ## Content -/

section
variable {f : Info → Info}
  (hf : ∀ (previous ancestor : Option Node) (n : Node),
    f (stampInfo target previous ancestor n) = f n.info)
include hf

/-- A view of the metadata that does not see the bookkeeping does not see a stamp. -/
theorem mapInfo_stamp (role : Role) (previous ancestor : Option Node) (n : Node) :
    (stamp s target role previous ancestor n).mapInfo f = n.mapInfo f := by
  induction n using tree_induction generalizing role previous ancestor with
  | simple | absentList | absentSet | absentMap => simp [stamp, mapInfo, hf, Node.info]
  | complex info own declared ih =>
    simp only [stamp, mapInfo, hf, Node.info, complex.injEq, true_and, and_true]
    generalize recordOf s role (.complex info own declared) = record
    induction own with
    | nil => rfl
    | cons e rest ihr =>
      obtain ⟨name, child⟩ := e
      have hchild := fun role previous ancestor => ih (name, child) (by simp) role previous ancestor
      simp [stampProperties, mapInfoFields, hchild, ihr fun e he => ih e (by simp [he])]
  | list info own ih =>
    simp only [stamp, mapInfo, hf, Node.info, list.injEq, true_and, Option.some.injEq]
    generalize (previous.bind Node.items?).getD [] = before
    generalize (ancestor.bind Node.items?).getD [] = above
    induction own generalizing before above with
    | nil => rfl
    | cons item rest ihr =>
      simp [stampList, mapInfoItems, ih item (by simp), ihr fun n hn => ih n (by simp [hn])]
  | set info own ih =>
    simp only [stamp, mapInfo, hf, Node.info, set.injEq, true_and, Option.some.injEq]
    generalize previous.bind Node.items? = before
    generalize ancestor.bind Node.items? = above
    induction own with
    | nil => rfl
    | cons item rest ihr =>
      simp [stampSet, mapInfoItems, ih item (by simp), ihr fun n hn => ih n (by simp [hn])]
  | map info own ih =>
    simp only [stamp, mapInfo, hf, Node.info, map.injEq, true_and, Option.some.injEq]
    induction own with
    | nil => rfl
    | cons e rest ihr =>
      obtain ⟨key, entry⟩ := e
      have hentry := fun role previous ancestor => ih (key, entry) (by simp) role previous ancestor
      simp [stampEntries, mapInfoFields, hentry, ihr fun e he => ih e (by simp [he])]

end

end ScopedConfig.Stamp
