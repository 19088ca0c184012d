import ScopedConfig.Proofs.Bookkeeping
import ScopedConfig.Proofs.Outcome

/-!
# What holds at every depth

A statement about single nodes that holds everywhere in a tree, and what a merge has to do with one
node for such a statement to hold everywhere in the merge: `Merge.levels_everywhere`.
-/

namespace ScopedConfig

namespace Node

/-! ## Parts of a tree -/

/-- It holds of the node and of all nodes below it. -/
def Everywhere (L : Node → Prop) (n : Node) : Prop := ∀ m, n.Contains m → L m

variable {L : Node → Prop} {n : Node}

theorem everywhere_iff : n.Everywhere L ↔ L n ∧ ∀ child ∈ n.children, child.Everywhere L := by
  constructor
  · exact fun h => ⟨h n .refl, fun child hchild m hm => h m (hm.head hchild)⟩
  · rintro ⟨hn, hchildren⟩ m hm
    rcases hm.cases_head with rfl | ⟨child, hchild, hm⟩
    · exact hn
    · exact hchildren child hchild m hm

theorem everywhere_of_leaf (h : n.children = []) : n.Everywhere L ↔ L n := by
  rw [everywhere_iff, h]
  exact and_iff_left (List.forall_mem_nil _)

theorem everywhere_simple {info : Info} {text : Option String} :
    (simple info text).Everywhere L ↔ L (simple info text) :=
  everywhere_of_leaf rfl

theorem everywhere_complex {info : Info} {own : List (String × Node)} {declared : List String} :
    (complex info own declared).Everywhere L ↔
      L (complex info own declared) ∧ ∀ e ∈ own, e.2.Everywhere L := by
  rw [everywhere_iff, children, List.forall_mem_map]

theorem everywhere_list {info : Info} {own : List Node} :
    (list info (some own)).Everywhere L ↔ L (list info (some own)) ∧ ∀ n ∈ own, n.Everywhere L :=
  everywhere_iff

theorem everywhere_set {info : Info} {own : List Node} :
    (set info (some own)).Everywhere L ↔ L (set info (some own)) ∧ ∀ n ∈ own, n.Everywhere L :=
  everywhere_iff

theorem everywhere_map {info : Info} {own : List (String × Node)} :
    (map info (some own)).Everywhere L ↔
      L (map info (some own)) ∧ ∀ e ∈ own, e.2.Everywhere L := by
  rw [everywhere_iff, children, Option.getD_some, List.forall_mem_map]

namespace Everywhere

theorem here (h : n.Everywhere L) : L n := h n .refl

theorem children (h : n.Everywhere L) : ∀ child ∈ n.children, child.Everywhere L :=
  (everywhere_iff.1 h).2

theorem properties (h : n.Everywhere L) : ∀ e ∈ n.properties?.getD [], e.2.Everywhere L := by
  cases n with
  | complex => exact (everywhere_complex.1 h).2
  | simple | list | set | map => exact List.forall_mem_nil _

theorem items (h : n.Everywhere L) : ∀ item ∈ n.items?.getD [], item.Everywhere L :=
  fun _ hitem => h.children _ (mem_children_of_item hitem)

theorem entries (h : n.Everywhere L) : ∀ e ∈ n.entries?.getD [], e.2.Everywhere L := by
  cases n with
  | map => exact fun e he => h.children _ (List.mem_map_of_mem he)
  | simple | complex | list | set => exact List.forall_mem_nil _

end Everywhere

theorem insert_everywhere {name : String} {child : Node} {own : List (String × Node)}
    (hown : ∀ e ∈ own, e.2.Everywhere L) (hchild : child.Everywhere L) :
    ∀ e ∈ Keyed.insert name child own, e.2.Everywhere L := by
  intro e he
  rcases Keyed.mem_keys_insert he with rfl | he
  · exact hchild
  · exact hown e he

/-! ## Other metadata -/

theorem children_withInfo (i : Info) (n : Node) : (n.withInfo i).children = n.children := by
  cases n <;> rfl

theorem everywhere_withInfo {i : Info} (hL : L (n.withInfo i) ↔ L n) :
    (n.withInfo i).Everywhere L ↔ n.Everywhere L := by
  rw [everywhere_iff, everywhere_iff, hL, children_withInfo]

theorem children_induction {motive : Node → Prop}
    (step : ∀ n : Node, (∀ child ∈ n.children, motive child) → motive n) (n : Node) : motive n := by
  induction n using tree_induction with
  | simple | absentList | absentSet | absentMap => exact step _ (List.forall_mem_nil _)
  | complex _ _ _ ih | map _ _ ih => exact step _ (List.forall_mem_map.2 ih)
  | list _ _ ih | set _ _ ih => exact step _ ih

variable {f : Info → Info}

theorem mapInfoItems_eq (own : List Node) : mapInfoItems f own = own.map (mapInfo f) := by
  induction own with
  | nil => rfl
  | cons n rest ih => rw [mapInfoItems, ih, List.map_cons]

theorem children_mapInfo (n : Node) : (n.mapInfo f).children = n.children.map (mapInfo f) := by
  have fields (own : List (String × Node)) :
      (mapInfoFields f own).map Prod.snd = (own.map Prod.snd).map (mapInfo f) := by
    simp [mapInfoFields_eq]
  cases n with
  | simple => rfl
  | complex _ own => exact fields own
  | list _ own | set _ own =>
    cases own with
    | none => rfl
    | some own => exact mapInfoItems_eq own
  | map _ own =>
    cases own with
    | none => rfl
    | some own => exact fields own

theorem everywhere_mapInfo (hL : ∀ n : Node, L (n.mapInfo f) ↔ L n) :
    (n.mapInfo f).Everywhere L ↔ n.Everywhere L := by
  induction n using children_induction with
  | step n ih =>
    rw [everywhere_iff, everywhere_iff, hL, children_mapInfo, List.forall_mem_map]
    exact and_congr_right fun _ => forall₂_congr ih

end Node

/-! ## Merges -/

namespace Merge

open Schema Node ScopedConfig.Except

/-- The statement holds of a node that is put together from nodes of two trees where it holds
everywhere. The properties of a complex node keep their names and the metadata of one side. -/
structure Mergeable (L : Node → Prop) : Prop where
  text {info : Info} {own : Option String} (merged : Option String) :
    L (.simple info own) → L (.simple info merged)
  set {info : Info} {own : List Node} (merged : List Node) :
    L (.set info (some own)) → L (.set info (some merged))
  map {info : Info} {own : List (String × Node)} (merged : List (String × Node)) :
    L (.map info (some own)) → L (.map info (some merged))
  complex {info : Info} {own merged : List (String × Node)} {declared : List String}
    {parent : Node} : L parent → L (.complex info own declared) →
    own.map Prod.fst ⊆ merged.map Prod.fst →
    (∀ e ∈ merged, ∃ n, (e.1, n) ∈ parent.properties?.getD [] ++ own ∧ e.2.info = n.info) →
    L (.complex info merged declared)

/-- The merge has the metadata of one side, and the statement holds everywhere in it if it does in
both sides. -/
structure Preserves (L : Node → Prop) (_ : Property) (parent child node : Node) : Prop where
  info : node.info = parent.info ∨ node.info = child.info
  everywhere : parent.Everywhere L → child.Everywhere L → node.Everywhere L

variable {rules : Rules} {L : Node → Prop} {type : Record} {p : Property} {parent child node : Node}
  {inherited own merged : List (String × Node)} {stale : Totals}

theorem Fields.everywhere (h : Fields (Preserves L) type inherited own merged)
    (hinherited : ∀ e ∈ inherited, e.2.Everywhere L) (hown : ∀ e ∈ own, e.2.Everywhere L) :
    ∀ e ∈ merged, e.2.Everywhere L := by
  induction h with
  | nil => exact List.forall_mem_nil _
  | taken _ _ ih =>
    obtain ⟨hfirst, hrest⟩ := List.forall_mem_cons.1 hown
    exact List.forall_mem_cons.2 ⟨hfirst, ih hrest⟩
  | paired hparent _ hpreserves _ ih =>
    obtain ⟨hfirst, hrest⟩ := List.forall_mem_cons.1 hown
    have habove := hinherited _ (Keyed.mem_of_lookup hparent)
    exact List.forall_mem_cons.2 ⟨hpreserves.everywhere habove hfirst, ih hrest⟩

theorem Fields.infos (h : Fields (Preserves L) type inherited own merged) :
    ∀ e ∈ merged, ∃ n, (e.1, n) ∈ inherited ++ own ∧ e.2.info = n.info := by
  have later {first : String × Node} {rest merged : List (String × Node)}
      (hmerged : ∀ e ∈ merged, ∃ n, (e.1, n) ∈ inherited ++ rest ∧ e.2.info = n.info) :
      ∀ e ∈ merged, ∃ n, (e.1, n) ∈ inherited ++ first :: rest ∧ e.2.info = n.info := by
    intro e he
    obtain ⟨n, hn, hinfo⟩ := hmerged e he
    refine ⟨n, ?_, hinfo⟩
    rw [List.mem_append] at hn ⊢
    exact hn.imp_right (List.mem_cons_of_mem _)
  induction h with
  | nil => exact List.forall_mem_nil _
  | taken _ _ ih => exact List.forall_mem_cons.2 ⟨⟨_, by simp, rfl⟩, later ih⟩
  | paired hparent _ hpreserves _ ih =>
    refine List.forall_mem_cons.2 ⟨?_, later ih⟩
    rcases hpreserves.info with hinfo | hinfo
    · exact ⟨_, List.mem_append_left _ (Keyed.mem_of_lookup hparent), hinfo⟩
    · exact ⟨_, by simp, hinfo⟩

variable (hL : Mergeable L)
include hL

theorem joined_everywhere {info : Info} {declared : List String} (hparent : parent.Everywhere L)
    (hchild : L (.complex info own declared)) (hnames : merged.map Prod.fst = own.map Prod.fst)
    (hmerged : ∀ e ∈ merged, e.2.Everywhere L)
    (hinfos : ∀ e ∈ merged, ∃ n, (e.1, n) ∈ parent.properties?.getD [] ++ own ∧
      e.2.info = n.info) :
    (joined info declared parent merged).Everywhere L := by
  refine everywhere_complex.2 ⟨hL.complex hparent.here hchild ?_ fun e he => ?_, fun e he => ?_⟩
  · rw [← hnames]
    intro name hname
    obtain ⟨node, hnode⟩ := Option.isSome_iff_exists.1 (Keyed.lookup_isSome_iff.2 hname)
    rw [← Keyed.lookup_isSome_iff, Keyed.lookup_fillFrom_of_some _ hnode]
    rfl
  · rcases Keyed.mem_fillFrom he with he | he
    · exact ⟨e.2, List.mem_append_left _ he, rfl⟩
    · exact hinfos e he
  · rcases Keyed.mem_fillFrom he with he | he
    · exact hparent.properties e he
    · exact hmerged e he

theorem backfill_everywhere (hparent : parent.Everywhere L) (hchild : child.Everywhere L) :
    (backfill parent child).Everywhere L := by
  cases parent with
  | complex i inherited d =>
    cases child with
    | complex info own declared =>
      exact joined_everywhere hL hparent hchild.here rfl (everywhere_complex.1 hchild).2
        fun e he => ⟨e.2, List.mem_append_right _ he, rfl⟩
    | simple | list | set | map => exact hchild
  | simple | list | set | map => exact hchild

theorem Fields.joined_everywhere {info : Info} {declared : List String}
    (h : Fields (Preserves L) type (parent.properties?.getD []) own merged)
    (hparent : parent.Everywhere L) (hchild : (Node.complex info own declared).Everywhere L) :
    (joined info declared parent merged).Everywhere L :=
  Merge.joined_everywhere hL hparent hchild.here h.names
    (h.everywhere hparent.properties (everywhere_complex.1 hchild).2) h.infos

theorem ItemOutcome.everywhere {above : Option Node}
    (h : ItemOutcome rules (Preserves L) p above child node)
    (habove : ∀ a, above = some a → a.Everywhere L) (hchild : child.Everywhere L) :
    node.Everywhere L := by
  cases h with
  | added => exact hchild
  | parent h => exact habove _ h
  | backfilled h => exact backfill_everywhere hL (habove _ h) hchild
  | joined h hcomplex _ _ hmerged =>
    exact hmerged.joined_everywhere hL (habove _ h) (hcomplex ▸ hchild)

theorem Outcome.preserves (h : Outcome rules (Preserves L) p parent child node) :
    Preserves L p parent child node := by
  cases h with
  | parent => exact ⟨.inl rfl, fun hparent _ => hparent⟩
  | child => exact ⟨.inr rfl, fun _ hchild => hchild⟩
  | text =>
    refine ⟨.inr rfl, fun _ hchild => ?_⟩
    rw [everywhere_simple] at hchild ⊢
    exact hL.text _ hchild
  | joined _ _ hmerged =>
    exact ⟨.inr rfl, fun hparent hchild => hmerged.joined_everywhere hL hparent hchild⟩
  | set hmerged =>
    refine ⟨.inr rfl, fun hparent hchild => ?_⟩
    obtain ⟨hhere, hown⟩ := everywhere_set.1 hchild
    refine everywhere_set.2 ⟨hL.set _ hhere, fun n hn => ?_⟩
    rcases hmerged n hn with hinherited | ⟨item, hitem, above, habove, hout⟩
    · exact hparent.items n hinherited
    · exact hout.everywhere hL (fun a ha => hparent.items a (habove a ha)) (hown item hitem)
  | map hkept _ hmerged =>
    refine ⟨.inr rfl, fun hparent hchild => ?_⟩
    obtain ⟨hhere, hown⟩ := everywhere_map.1 hchild
    refine everywhere_map.2 ⟨hL.map _ hhere, fun e he => ?_⟩
    rcases Keyed.mem_fillFrom he with hinherited | he
    · exact hparent.entries e (hkept e hinherited)
    · obtain ⟨entry, hentry, hout⟩ := hmerged e he
      exact hout.everywhere hL
        (fun a ha => hparent.entries _ (Keyed.mem_of_lookup ha)) (hown _ hentry)

/-- A merge of levels keeps what holds everywhere in each of them. -/
theorem levels_everywhere {all : List (Option Node)}
    (hall : ∀ level, some level ∈ all → level.Everywhere L)
    (h : levels rules type all = .ok (some node, stale)) : node.Everywhere L := by
  refine levelsFrom_induction (motive := Everywhere L) ?_ (by simp) hall h
  intro parent child node stale hparent hchild hnode
  obtain ⟨info, own, declared, merged, rfl, hmerged, rfl⟩ :=
    complex_outcome (R := Preserves L) (fun _ _ h => h.preserves hL) hnode
  exact hmerged.joined_everywhere hL hparent hchild

end Merge

end ScopedConfig
