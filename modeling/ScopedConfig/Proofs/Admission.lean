import ScopedConfig.Proofs.Everywhere
import ScopedConfig.Proofs.JsonDepth
import ScopedConfig.Proofs.Labels

/-!
# What is read of a snapshot

Whatever a document says, the node that is read of it has versions of 64 bits and keys in order, and
its own document nests no deeper. So only its paths may be in the way of writing it again.
-/

namespace ScopedConfig

open ScopedConfig.Except

/-! ## Nesting -/

namespace Json

variable {d : Nat}

theorem depthItems_le_iff {items : List Json} : depthItems items ≤ d ↔ ∀ j ∈ items, j.depth ≤ d := by
  induction items with
  | nil => simp [depthItems]
  | cons j rest ih => rw [depthItems, Nat.max_le, ih, List.forall_mem_cons]

theorem depthMembers_le_iff {members : List (String × Json)} :
    depthMembers members ≤ d ↔ ∀ m ∈ members, m.2.depth ≤ d := by
  induction members with
  | nil => simp [depthMembers]
  | cons m rest ih => rw [depthMembers, Nat.max_le, ih, List.forall_mem_cons]

theorem depthItems_strings (texts : List String) : depthItems (texts.map .str) = 0 :=
  Nat.le_zero.1 (depthItems_le_iff.2 (List.forall_mem_map.2 fun _ _ => Nat.le_refl 0))

end Json

open Json (depthItems depthMembers depthItems_le_iff depthMembers_le_iff)

/-! ## Metadata -/

theorem Json.once_eq_ok {α : Type} {name : String} {earlier : Option α}
    {value : Except Decode.Cause α} {a : Option α} (h : Json.once name earlier value = .ok a) :
    ∃ b, value = .ok b ∧ a = some b := by
  rw [Json.once] at h
  split at h
  · cases h
  · obtain ⟨b, hb, rfl⟩ := map_eq_ok.1 h
    exact ⟨b, hb, rfl⟩

theorem Json.fits_of_asInt64 {j : Json} {i : Int} (h : j.asInt64 = .ok i) :
    Text.fitsInt64 i = true := by
  cases j with
  | int own =>
    rw [Json.asInt64] at h
    split at h
    case isTrue hfits => exact Except.ok.inj h ▸ hfits
    case isFalse => cases h
  | null | bool | real | str | arr | obj => cases h

namespace Info

theorem Draft.version_read {d d' : Draft} {member : String × Json}
    (hd : ∀ v, d.version = some v → Text.fitsInt64 v = true) (h : d.read member = .ok d') :
    ∀ v, d'.version = some v → Text.fitsInt64 v = true := by
  unfold Draft.read at h
  simp only at h
  split at h
  case h_5 =>
    obtain ⟨_, hread, h⟩ := bind_eq_ok.1 h
    obtain ⟨version, hversion, rfl⟩ := Json.once_eq_ok hread
    cases h
    rintro _ ⟨⟩
    exact Json.fits_of_asInt64 hversion
  case h_8 =>
    cases h
    exact hd
  all_goals
    obtain ⟨_, -, h⟩ := bind_eq_ok.1 h
    cases h
    exact hd

theorem version_ofJson {s : Standing} {j : Json} {i : Info} (h : Info.ofJson s j = .ok i) :
    Text.fitsInt64 i.version = true := by
  obtain ⟨members, -, h⟩ := bind_eq_ok.1 h
  obtain ⟨draft, hdraft, h⟩ := bind_eq_ok.1 h
  obtain ⟨definedAt, -, h⟩ := bind_eq_ok.1 h
  obtain ⟨typeName, -, h⟩ := bind_eq_ok.1 h
  obtain ⟨_, -, h⟩ := bind_eq_ok.1 h
  cases h
  have hversion := foldlM_invariant (P := fun d : Draft => ∀ v, d.version = some v →
    Text.fitsInt64 v = true) (by rintro _ ⟨⟩) (fun hd h => Draft.version_read hd h) hdraft
  have hzero : Text.fitsInt64 0 = true := by decide
  cases hread : draft.version with
  | none => exact hzero
  | some v => exact hversion v hread

end Info

theorem Info.depth_toJson (i : Info) : i.toJson.depth = 1 := by
  obtain ⟨definedAt, typeName, propertyName, polymorphic, version, parentScope, parentVersion⟩ := i
  cases propertyName <;> cases parentScope <;> rfl

namespace Node

theorem depth_withMeta (i : Info) (kind : Kind) (content : List (String × Json)) :
    (toJson.withMeta i kind content).depth = depthMembers content + 2 := by
  simp only [toJson.withMeta, Json.depth, depthMembers, Info.depth_toJson]
  omega

theorem depthMembers_fields {d : Nat} {own : List (String × Node)} :
    depthMembers (fieldsToJson own) ≤ d ↔ ∀ e ∈ own, e.2.toJson.depth ≤ d := by
  rw [depthMembers_le_iff, fieldsToJson_eq, List.forall_mem_map]

theorem depthItems_items {d : Nat} {own : List Node} :
    depthItems (itemsToJson own) ≤ d ↔ ∀ n ∈ own, n.toJson.depth ≤ d := by
  rw [depthItems_le_iff, itemsToJson_eq, List.forall_mem_map]

theorem depth_complex (i : Info) (own : List (String × Node)) (declared : List String) :
    (complex i own declared).toJson.depth = depthMembers (fieldsToJson own) + 3 := by
  rw [toJson, depth_withMeta]
  simp [depthMembers, Json.depth, Json.depthItems_strings]

/-! ## Nodes in order -/

/-- Names, declared names and keys are in strict order. -/
def InOrder : Node → Prop
  | complex _ own declared => Keyed.Sorted own ∧ declared.Pairwise fun a b => compare a b = .lt
  | map _ (some own) => Keyed.Sorted own
  | simple .. | list .. | set .. | map _ none => True

/-- Keys are in order, and 64 bits hold the version. -/
structure IsRegular (n : Node) : Prop where
  order : n.InOrder
  version : Text.fitsInt64 n.version = true

theorem isStorable_iff {n : Node} :
    n.isStorable = true ↔ n.Everywhere fun m => m.InOrder ∧ m.info.isStorable = true := by
  induction n using tree_induction with
  | simple | absentList | absentSet | absentMap =>
    rw [everywhere_of_leaf rfl]
    simp [isStorable, InOrder, info]
  | complex i own declared ih =>
    simp only [isStorable, Bool.and_eq_true, decide_eq_true_eq, everywhere_complex, InOrder, info,
      fieldsStorable_iff]
    rw [forall₂_congr ih]
    tauto
  | list i own ih =>
    rw [isStorable, Bool.and_eq_true, itemsStorable_iff, everywhere_list, forall₂_congr ih]
    exact and_congr_left fun _ => ⟨fun h => ⟨trivial, h⟩, And.right⟩
  | set i own ih =>
    rw [isStorable, Bool.and_eq_true, itemsStorable_iff, everywhere_set, forall₂_congr ih]
    exact and_congr_left fun _ => ⟨fun h => ⟨trivial, h⟩, And.right⟩
  | map i own ih =>
    simp only [isStorable, Bool.and_eq_true, decide_eq_true_eq, everywhere_map, InOrder, info,
      fieldsStorable_iff]
    rw [forall₂_congr ih]
    tauto

/-- The node is regular everywhere, and its document nests less deep than that. -/
structure Admitted (d : Nat) (n : Node) : Prop where
  regular : n.Everywhere IsRegular
  depth : n.toJson.depth < d

theorem Admitted.mono {d d' : Nat} {n : Node} (h : Admitted d n) (hd : d ≤ d') : Admitted d' n :=
  ⟨h.regular, Nat.lt_of_lt_of_le h.depth hd⟩

/-- Properties or entries that were read. -/
structure Table (d : Nat) (own : List (String × Node)) : Prop where
  sorted : Keyed.Sorted own
  depth : 0 < d
  admitted : ∀ e ∈ own, Admitted d e.2

/-- Items that were read. -/
structure Listing (d : Nat) (own : List Node) : Prop where
  depth : 0 < d
  admitted : ∀ n ∈ own, Admitted d n

/-- Content that makes a regular node of any metadata, when its own document has this depth. -/
def Fills (d : Nat) (content : Info → Node) : Prop :=
  ∀ i : Info, Text.fitsInt64 i.version = true → Admitted (d + 3) (content i)

section
variable {d : Nat}

theorem admitted_of_content {n : Node} {content : List (String × Json)} (hhere : n.IsRegular)
    (hbelow : ∀ child ∈ n.children, child.Everywhere IsRegular)
    (hjson : n.toJson = toJson.withMeta n.info n.kind content) (hdepth : depthMembers content ≤ d) :
    Admitted (d + 3) n := by
  refine ⟨everywhere_iff.2 ⟨hhere, hbelow⟩, ?_⟩
  rw [hjson, depth_withMeta]
  omega

theorem Table.depth_fields {own : List (String × Node)} (h : Table d own) :
    (Json.obj (fieldsToJson own)).depth ≤ d := by
  have hfields : depthMembers (fieldsToJson own) ≤ d - 1 :=
    depthMembers_fields.2 fun e he => Nat.le_sub_one_of_lt (h.admitted e he).depth
  have := h.depth
  rw [Json.depth]
  omega

theorem Listing.depth_items {own : List Node} (h : Listing d own) :
    (Json.arr (itemsToJson own)).depth ≤ d := by
  have hitems : depthItems (itemsToJson own) ≤ d - 1 :=
    depthItems_items.2 fun n hn => Nat.le_sub_one_of_lt (h.admitted n hn).depth
  have := h.depth
  rw [Json.depth]
  omega

theorem depthMembers_single {key : String} {j : Json} (h : j.depth ≤ d) :
    depthMembers [(key, j)] ≤ d :=
  depthMembers_le_iff.2 (List.forall_mem_singleton.2 h)

theorem fills_simple (text : Option String) : Fills d fun i => simple i text := by
  refine fun i hi => admitted_of_content ⟨trivial, hi⟩ (List.forall_mem_nil _) rfl ?_
  cases text <;> exact Nat.zero_le d

theorem Table.fills_complex {own : List (String × Node)} (h : Table d own) {declared : List String}
    (hdeclared : declared.Pairwise fun a b => compare a b = .lt) :
    Fills d fun i => complex i own declared := by
  intro i hi
  refine admitted_of_content ⟨⟨h.sorted, hdeclared⟩, hi⟩
    (List.forall_mem_map.2 fun e he => (h.admitted e he).regular) rfl (Nat.max_le.2 ?_)
  refine ⟨h.depth_fields, depthMembers_single ?_⟩
  rw [Json.depth, Json.depthItems_strings]
  exact h.depth

theorem fills_items {own : Option (List Node)} (h : ∀ ns, own = some ns → Listing d ns) :
    (Fills d fun i => list i own) ∧ Fills d fun i => set i own := by
  cases own with
  | none =>
    exact ⟨fun i hi => admitted_of_content ⟨trivial, hi⟩ (List.forall_mem_nil _) rfl (Nat.zero_le d),
      fun i hi => admitted_of_content ⟨trivial, hi⟩ (List.forall_mem_nil _) rfl (Nat.zero_le d)⟩
  | some own =>
    have hbelow : ∀ n ∈ own, n.Everywhere IsRegular :=
      fun n hn => ((h own rfl).admitted n hn).regular
    have hdepth : depthMembers [("items", .arr (itemsToJson own))] ≤ d :=
      depthMembers_single (h own rfl).depth_items
    exact ⟨fun i hi => admitted_of_content ⟨trivial, hi⟩ hbelow rfl hdepth,
      fun i hi => admitted_of_content ⟨trivial, hi⟩ hbelow rfl hdepth⟩

theorem fills_map {own : Option (List (String × Node))} (h : ∀ es, own = some es → Table d es) :
    Fills d fun i => map i own := by
  intro i hi
  cases own with
  | none => exact admitted_of_content ⟨trivial, hi⟩ (List.forall_mem_nil _) rfl (Nat.zero_le d)
  | some own =>
    exact admitted_of_content ⟨(h own rfl).sorted, hi⟩
      (List.forall_mem_map.2 fun e he => ((h own rfl).admitted e he).regular) rfl
      (depthMembers_single (h own rfl).depth_fields)

end

/-! ## Reading -/

/-- What the value is read as is admitted. -/
def Admits (j : Json) : Prop :=
  ∀ s n, read s j = .ok n → Admitted (j.depth + 1) n

section
variable {d : Nat} (hsub : ∀ j : Json, j.depth < d → Admits j)
include hsub

theorem readNamed_admitted {members : List (String × Json)} {own : List (String × Node)}
    (hdepth : ∀ m ∈ members, m.2.depth < d) (h : readNamed members = .ok own) :
    ∀ e ∈ own, Admitted d e.2 := by
  induction members generalizing own with
  | nil =>
    cases h
    exact List.forall_mem_nil _
  | cons m rest ih =>
    obtain ⟨hfirst, hrest⟩ := List.forall_mem_cons.1 hdepth
    obtain ⟨n, hn, h⟩ := bind_eq_ok.1 h
    obtain ⟨others, hothers, h⟩ := bind_eq_ok.1 h
    cases h
    exact List.forall_mem_cons.2 ⟨(hsub m.2 hfirst _ n hn).mono hfirst, ih hrest hothers⟩

theorem readNodes_admitted {items : List Json} {own : List Node}
    (hdepth : ∀ j ∈ items, j.depth < d) (h : readNodes items = .ok own) :
    ∀ n ∈ own, Admitted d n := by
  induction items generalizing own with
  | nil =>
    cases h
    exact List.forall_mem_nil _
  | cons j rest ih =>
    obtain ⟨hfirst, hrest⟩ := List.forall_mem_cons.1 hdepth
    obtain ⟨n, hn, h⟩ := bind_eq_ok.1 h
    obtain ⟨others, hothers, h⟩ := bind_eq_ok.1 h
    cases h
    exact List.forall_mem_cons.2 ⟨(hsub j hfirst _ n hn).mono hfirst, ih hrest hothers⟩

theorem table_of_readNamed {members : List (String × Json)} {own : List (String × Node)}
    (hdepth : (Json.obj members).depth ≤ d) (h : readNamed members = .ok own) :
    Table d (Keyed.ofList own) := by
  rw [Json.depth] at hdepth
  have hmembers := depthMembers_le_iff.1 (Nat.le_refl (depthMembers members))
  refine ⟨Keyed.sorted_ofList own, by omega, fun e he => ?_⟩
  -- Of a repeated key the last pair stays, and that one was read.
  refine readNamed_admitted hsub (fun m hm => ?_) h e (Keyed.mem_ofList he)
  have := hmembers m hm
  omega

theorem table_of_readTable {j : Json} {own : List (String × Node)} (hdepth : j.depth ≤ d)
    (h : readTable j = .ok own) : Table d own := by
  cases j with
  | obj members =>
    obtain ⟨named, hnamed, rfl⟩ := map_eq_ok.1 h
    exact table_of_readNamed hsub hdepth hnamed
  | null | bool | int | real | str | arr => cases h

theorem table_of_readEntries {j : Json} {own : Option (List (String × Node))}
    (hdepth : j.depth ≤ d) (h : readEntries j = .ok own) : ∀ es, own = some es → Table d es := by
  rintro es rfl
  cases j with
  | obj members =>
    obtain ⟨named, hnamed, hes⟩ := map_eq_ok.1 h
    exact Option.some.inj hes ▸ table_of_readNamed hsub hdepth hnamed
  | null | bool | int | real | str | arr => cases h

theorem listing_of_readItems {j : Json} {own : Option (List Node)} (hdepth : j.depth ≤ d)
    (h : readItems j = .ok own) : ∀ ns, own = some ns → Listing d ns := by
  rintro ns rfl
  cases j with
  | arr items =>
    obtain ⟨nodes, hnodes, hns⟩ := map_eq_ok.1 h
    obtain rfl := Option.some.inj hns
    rw [Json.depth] at hdepth
    have hitems := depthItems_le_iff.1 (Nat.le_refl (depthItems items))
    refine ⟨by omega, readNodes_admitted hsub (fun j hj => ?_) hnodes⟩
    have := hitems j hj
    omega
  | null | bool | int | real | str | obj => cases h

/-- What the fields of the content have been read as. -/
structure ContentDraft.Within (d : Nat) (draft : ContentDraft) : Prop where
  properties : ∀ own, draft.properties = some own → Table d own
  items : ∀ own, draft.items.getD none = some own → Listing d own
  entries : ∀ own, draft.entries.getD none = some own → Table d own

theorem readFields_within {kind : Kind} {members : List (String × Json)} {draft read : ContentDraft}
    (hdepth : ∀ m ∈ members, m.2.depth ≤ d) (hdraft : draft.Within d)
    (h : readFields kind draft members = .ok read) : read.Within d := by
  induction members generalizing draft with
  | nil =>
    cases h
    exact hdraft
  | cons m rest ih =>
    obtain ⟨key, j⟩ := m
    obtain ⟨hj, hrest⟩ := List.forall_mem_cons.1 hdepth
    unfold readFields at h
    split at h
    case h_1 | h_3 =>
      obtain ⟨_, -, h⟩ := bind_eq_ok.1 h
      refine ih hrest ?_ h
      exact ⟨hdraft.properties, hdraft.items, hdraft.entries⟩
    case h_2 =>
      obtain ⟨_, hread, h⟩ := bind_eq_ok.1 h
      obtain ⟨table, htable, rfl⟩ := Json.once_eq_ok hread
      refine ih hrest ?_ h
      refine ⟨?_, hdraft.items, hdraft.entries⟩
      rintro _ ⟨⟩
      exact table_of_readTable hsub hj htable
    case h_4 | h_5 =>
      obtain ⟨_, hread, h⟩ := bind_eq_ok.1 h
      obtain ⟨items, hitems, rfl⟩ := Json.once_eq_ok hread
      refine ih hrest ?_ h
      refine ⟨hdraft.properties, ?_, hdraft.entries⟩
      exact listing_of_readItems hsub hj hitems
    case h_6 =>
      obtain ⟨_, hread, h⟩ := bind_eq_ok.1 h
      obtain ⟨entries, hentries, rfl⟩ := Json.once_eq_ok hread
      refine ih hrest ?_ h
      refine ⟨hdraft.properties, hdraft.items, ?_⟩
      exact table_of_readEntries hsub hj hentries
    case h_7 => exact ih hrest hdraft h

omit hsub in
theorem ContentDraft.Within.fills {draft : ContentDraft} (hdraft : draft.Within d) {kind : Kind}
    {content : Info → Node} (h : draft.finish kind = .ok content) : Fills d content := by
  cases kind with
  | simple =>
    cases h
    exact fills_simple _
  | complex =>
    rw [ContentDraft.finish] at h
    split at h
    case h_1 => cases h
    case h_2 own hown =>
      cases h
      exact (hdraft.properties own hown).fills_complex (Keyed.pairwise_keySet _)
  | list =>
    cases h
    exact (fills_items hdraft.items).1
  | set =>
    cases h
    exact (fills_items hdraft.items).2
  | map =>
    cases h
    exact fills_map hdraft.entries

omit hsub in
theorem upTo_eq_ok {α : Type} {known : Nat} {surplus : List Json} {content c : α}
    (h : upTo known surplus content = .ok c) : c = content := by
  rw [upTo] at h
  split at h
  · exact (Except.ok.inj h).symm
  · cases h

theorem readValues_fills {kind : Kind} {values : List Json} {content : Info → Node}
    (hdepth : ∀ j ∈ values, j.depth ≤ d) (h : readValues kind values = .ok content) :
    Fills d content := by
  cases values with
  | nil => cases kind <;> cases h
  | cons j rest =>
    have hj := hdepth j List.mem_cons_self
    cases kind with
    | simple =>
      obtain ⟨text, -, h⟩ := bind_eq_ok.1 h
      exact upTo_eq_ok h ▸ fills_simple text
    | complex =>
      cases rest with
      | nil =>
        obtain ⟨own, hown, h⟩ := bind_eq_ok.1 h
        cases h
        exact (table_of_readTable hsub hj hown).fills_complex List.Pairwise.nil
      | cons ds rest =>
        obtain ⟨own, hown, h⟩ := bind_eq_ok.1 h
        obtain ⟨declared, -, h⟩ := bind_eq_ok.1 h
        exact upTo_eq_ok h ▸
          (table_of_readTable hsub hj hown).fills_complex (Keyed.pairwise_keySet declared)
    | list =>
      obtain ⟨own, hown, h⟩ := bind_eq_ok.1 h
      exact upTo_eq_ok h ▸ (fills_items (listing_of_readItems hsub hj hown)).1
    | set =>
      obtain ⟨own, hown, h⟩ := bind_eq_ok.1 h
      exact upTo_eq_ok h ▸ (fills_items (listing_of_readItems hsub hj hown)).2
    | map =>
      obtain ⟨own, hown, h⟩ := bind_eq_ok.1 h
      exact upTo_eq_ok h ▸ fills_map (table_of_readEntries hsub hj hown)

end

theorem readContent_fills {s : Standing} {j : Json} {content : Info → Node}
    (hsub : ∀ k : Json, k.depth < j.depth → Admits k) (h : readContent s j = .ok content) :
    ∃ d, j.depth = d + 1 ∧ Fills d content := by
  cases j with
  | obj members =>
    refine ⟨depthMembers members, rfl, ?_⟩
    obtain ⟨kind, -, h⟩ := bind_eq_ok.1 h
    obtain ⟨draft, hdraft, h⟩ := bind_eq_ok.1 h
    refine ContentDraft.Within.fills ?_ h
    refine readFields_within (fun k hk => hsub k (Nat.lt_succ_of_lt hk))
      (depthMembers_le_iff.1 (Nat.le_refl _)) ⟨?_, ?_, ?_⟩ hdraft
    all_goals rintro _ ⟨⟩
  | arr items =>
    refine ⟨depthItems items, rfl, ?_⟩
    cases items with
    | nil => cases h
    | cons tag values =>
      obtain ⟨kind, -, h⟩ := bind_eq_ok.1 h
      have hvalues := depthItems_le_iff.1 (Nat.le_refl (depthItems (tag :: values)))
      exact readValues_fills (fun k hk => hsub k (Nat.lt_succ_of_lt hk))
        (List.forall_mem_cons.1 hvalues).2 h
  | null | bool | int | real | str => cases h

/-- What the metadata and the content have been read as. -/
structure Draft.Within (d : Nat) (draft : Draft) : Prop where
  info : ∀ i, draft.info = some i → Text.fitsInt64 i.version = true
  content : ∀ content, draft.content = some content → ∃ k < d, Fills k content

theorem readMembers_within {s : Standing} {d : Nat}
    (hsub : ∀ j : Json, j.depth < d → Admits j) {members : List (String × Json)}
    {draft read : Draft} (hdepth : ∀ m ∈ members, m.2.depth ≤ d) (hdraft : draft.Within d)
    (h : readMembers s draft members = .ok read) : read.Within d := by
  induction members generalizing draft with
  | nil =>
    cases h
    exact hdraft
  | cons m rest ih =>
    obtain ⟨key, j⟩ := m
    obtain ⟨hj, hrest⟩ := List.forall_mem_cons.1 hdepth
    rw [readMembers] at h
    split at h
    · obtain ⟨_, hread, h⟩ := bind_eq_ok.1 h
      obtain ⟨info, hinfo, rfl⟩ := Json.once_eq_ok hread
      refine ih hrest ?_ h
      refine ⟨?_, hdraft.content⟩
      rintro _ ⟨⟩
      exact Info.version_ofJson hinfo
    · split at h
      · obtain ⟨_, hread, h⟩ := bind_eq_ok.1 h
        obtain ⟨content, hcontent, rfl⟩ := Json.once_eq_ok hread
        refine ih hrest ?_ h
        refine ⟨hdraft.info, ?_⟩
        rintro _ ⟨⟩
        obtain ⟨k, hk, hfills⟩ :=
          readContent_fills (fun j' hj' => hsub j' (Nat.lt_of_lt_of_le hj' hj)) hcontent
        exact ⟨k, by omega, hfills⟩
      · exact ih hrest hdraft h

theorem admits_of_depth {j : Json} (hsub : ∀ k : Json, k.depth < j.depth → Admits k) :
    Admits j := by
  intro s n h
  -- A node is read from an object, or from an array that holds its metadata and its content.
  cases j with
  | obj members =>
    obtain ⟨draft, hdraft, h⟩ := bind_eq_ok.1 h
    have hwithin := readMembers_within (fun k hk => hsub k (Nat.lt_succ_of_lt hk))
      (depthMembers_le_iff.1 (Nat.le_refl _)) ⟨by rintro _ ⟨⟩, by rintro _ ⟨⟩⟩ hdraft
    rw [Draft.finish] at h
    split at h
    case h_1 => cases h
    case h_2 => cases h
    case h_3 info content hinfo hcontent =>
      cases h
      obtain ⟨k, hk, hfills⟩ := hwithin.content content hcontent
      refine (hfills info (hwithin.info info hinfo)).mono ?_
      rw [Json.depth]
      omega
  | arr items =>
    cases items with
    | nil => cases h
    | cons m values =>
      cases values with
      | nil =>
        obtain ⟨_, -, h⟩ := bind_eq_ok.1 h
        cases h
      | cons v rest =>
        obtain ⟨info, hinfo, h⟩ := bind_eq_ok.1 h
        obtain ⟨content, hcontent, h⟩ := bind_eq_ok.1 h
        split at h
        case isFalse => cases h
        case isTrue =>
          cases h
          have hv : v.depth ≤ depthItems (m :: v :: rest) :=
            depthItems_le_iff.1 (Nat.le_refl _) v (by simp)
          obtain ⟨k, hk, hfills⟩ := readContent_fills
            (fun k hk => hsub k (Nat.lt_of_lt_of_le hk (Nat.le_succ_of_le hv))) hcontent
          refine (hfills info (Info.version_ofJson hinfo)).mono ?_
          rw [Json.depth]
          omega
  | null | bool | int | real | str => cases h

theorem admits (j : Json) : Admits j := by
  induction hd : j.depth using Nat.strong_induction_on generalizing j with
  | h d ih =>
    subst hd
    exact admits_of_depth fun k hk => ih k.depth hk k rfl

end Node

/-! ## Snapshots -/

namespace Snapshot

theorem depth_toJson (path : Scope.Path) (n : Node) :
    (toJson ⟨path, n⟩).depth = n.toJson.depth + 1 := by
  simp [toJson, Json.depth, depthMembers]

theorem Draft.node_read {d : Nat} {draft read : Draft} {member : String × Json}
    (hdepth : member.2.depth < d) (hdraft : ∀ n, draft.node = some n → n.Admitted d)
    (h : draft.read member = .ok read) : ∀ n, read.node = some n → n.Admitted d := by
  obtain ⟨key, j⟩ := member
  unfold Draft.read at h
  simp only at h
  split at h
  · obtain ⟨_, -, h⟩ := bind_eq_ok.1 h
    cases h
    exact hdraft
  · obtain ⟨_, hread, h⟩ := bind_eq_ok.1 h
    obtain ⟨node, hnode, rfl⟩ := Json.once_eq_ok hread
    cases h
    rintro _ ⟨⟩
    exact (Node.admits j _ node hnode).mono hdepth
  · cases h
    exact hdraft

theorem admitted_ofJson {j : Json} {s : Snapshot} (h : ofJson j = .ok s) :
    s.node.Admitted j.depth := by
  obtain ⟨members, hmembers, h⟩ := bind_eq_ok.1 h
  obtain ⟨draft, hdraft, h⟩ := bind_eq_ok.1 h
  obtain ⟨path, -, h⟩ := bind_eq_ok.1 h
  obtain ⟨node, hnode, h⟩ := bind_eq_ok.1 h
  obtain ⟨_, -, h⟩ := bind_eq_ok.1 h
  cases h
  have hdepth : ∀ m ∈ members, m.2.depth < j.depth := by
    cases j with
    | obj own =>
      cases hmembers
      exact fun m hm => Nat.lt_succ_of_le (depthMembers_le_iff.1 (Nat.le_refl _) m hm)
    | arr items =>
      cases hmembers
      exact fun m hm => Nat.lt_succ_of_le
        (depthItems_le_iff.1 (Nat.le_refl _) m.2 (List.of_mem_zip hm).2)
    | null | bool | int | real | str => cases hmembers
  have hread := foldlM_collects (P := fun d : Draft => ∀ n, d.node = some n → n.Admitted j.depth)
    (Q := fun _ _ => True) (by rintro _ ⟨⟩)
    (fun m hm _ _ hd h => ⟨Draft.node_read (hdepth m hm) hd h, trivial, fun _ => id⟩) hdraft
  cases hdrafted : draft.node with
  | none => simp [hdrafted, RecordForm.require] at hnode
  | some n =>
    rw [hdrafted] at hnode
    exact Except.ok.inj hnode ▸ hread.1 n hdrafted

/-- Whatever text it is read of, the snapshot's own document can be read within the same limit, but
for the paths in it. -/
theorem admitted_ofText {nesting : Nat} {text : String} {s : Snapshot}
    (h : ofText nesting text = .ok s) : s.node.Admitted nesting := by
  rw [ofText] at h
  split at h
  case h_1 => cases h
  case h_2 j hj =>
    cases hread : ofJson j with
    | error e => simp [hread, mapError_error] at h
    | ok own =>
      rw [hread] at h
      cases h
      have hdepth : j.depth ≤ nesting := Json.depth_parse (by decide) hj
      exact (admitted_ofJson hread).mono hdepth

end Snapshot

namespace Store.Directory

theorem admitted_of_load {d : Directory} {p : Scope.Path} {n : Node}
    (h : d.load p = .ok (some n)) : n.Admitted d.nesting := by
  obtain ⟨content, -, hread⟩ := load_eq_ok_some_iff.1 h
  exact Snapshot.admitted_ofText hread

end Store.Directory

end ScopedConfig
