import ScopedConfig.Proofs.Agreement

/-!
# Equal content is an equivalence

Equal content is an equivalence of nodes. It looks at neither the order in which the items of sets
stand nor at metadata, except for types: nodes that differ in nothing else, at any depth, have the
same content, and compare to all other nodes in the same way.
-/

namespace ScopedConfig

namespace Node

/-- The second node is the first with the items of sets in another order and with other metadata and
declared names, at every depth. The types stay. -/
inductive Rearranged : Node → Node → Prop where
  | simple {i j : Info} {text : Option String} (htype : i.typeName = j.typeName) :
    Rearranged (.simple i text) (.simple j text)
  | complex {i j : Info} {own others : List (String × Node)} {declared declared' : List String}
    (htype : i.typeName = j.typeName) (hnames : own.map Prod.fst = others.map Prod.fst)
    (hvalues : ∀ name m n, own.lookup name = some m → others.lookup name = some n →
      Rearranged m n) :
    Rearranged (.complex i own declared) (.complex j others declared')
  | absentList {i j : Info} (htype : i.typeName = j.typeName) :
    Rearranged (.list i none) (.list j none)
  | list {i j : Info} {own others : List Node} (htype : i.typeName = j.typeName)
    (hlength : own.length = others.length)
    (hitems : ∀ (k : Nat) (m n : Node), own[k]? = some m → others[k]? = some n →
      Rearranged m n) :
    Rearranged (.list i (some own)) (.list j (some others))
  | absentSet {i j : Info} (htype : i.typeName = j.typeName) :
    Rearranged (.set i none) (.set j none)
  | set {i j : Info} {own others arranged : List Node} (htype : i.typeName = j.typeName)
    (hperm : arranged.Perm others) (hlength : own.length = arranged.length)
    (hitems : ∀ (k : Nat) (m n : Node), own[k]? = some m → arranged[k]? = some n →
      Rearranged m n) :
    Rearranged (.set i (some own)) (.set j (some others))
  | absentMap {i j : Info} (htype : i.typeName = j.typeName) :
    Rearranged (.map i none) (.map j none)
  | map {i j : Info} {own others : List (String × Node)} (htype : i.typeName = j.typeName)
    (hkeys : own.map Prod.fst = others.map Prod.fst)
    (hentries : ∀ key m n, own.lookup key = some m → others.lookup key = some n →
      Rearranged m n) :
    Rearranged (.map i (some own)) (.map j (some others))

namespace Rearranged

variable {a b : Node}

/-! ## Rearranged nodes -/

theorem refl (a : Node) : a.Rearranged a := by
  induction a using tree_induction with
  | simple => exact .simple rfl
  | complex _ _ _ ih =>
    refine .complex rfl rfl fun name m n hm hn => ?_
    obtain rfl := Option.some.inj (hm.symm.trans hn)
    exact ih _ (Keyed.mem_of_lookup hm)
  | absentList => exact .absentList rfl
  | list _ _ ih =>
    refine .list rfl rfl fun k m n hm hn => ?_
    obtain rfl := Option.some.inj (hm.symm.trans hn)
    exact ih _ (List.mem_of_getElem? hm)
  | absentSet => exact .absentSet rfl
  | set _ _ ih =>
    refine .set rfl (.refl _) rfl fun k m n hm hn => ?_
    obtain rfl := Option.some.inj (hm.symm.trans hn)
    exact ih _ (List.mem_of_getElem? hm)
  | absentMap => exact .absentMap rfl
  | map _ _ ih =>
    refine .map rfl rfl fun key m n hm hn => ?_
    obtain rfl := Option.some.inj (hm.symm.trans hn)
    exact ih _ (Keyed.mem_of_lookup hm)

theorem congruent (h : a.Rearranged b) : a.Congruent b := by
  induction h with
  | @simple i j text =>
    cases text with
    | none => exact .nothing rfl rfl
    | some text => exact .simple
  | complex htype hnames _ ih => exact .complex htype (fun name => by rw [hnames]) ih
  | absentList | absentSet | absentMap => exact .nothing rfl rfl
  | list _ hlength _ ih => exact .list hlength ih
  | set _ hperm hlength _ ih => exact .set hperm hlength ih
  | map _ hkeys _ ih => exact .map (fun key => by rw [hkeys]) ih

theorem fields_kindred {own others : List (String × Node)} (hown : Keyed.Sorted own)
    (ih : ∀ name m n, own.lookup name = some m → others.lookup name = some n →
      m.isOrdered = true → m.kindred n = true)
    (hordered : ∀ e ∈ own, e.2.isOrdered = true) : kindredFields own others = true :=
  kindredFields_iff.2 fun e he n hn =>
    ih e.1 e.2 n (Keyed.lookup_of_mem hown he) hn (hordered e he)

theorem items_kindred {own others : List Node}
    (ih : ∀ (k : Nat) (m n : Node), own[k]? = some m → others[k]? = some n →
      m.isOrdered = true → m.kindred n = true)
    (hordered : ∀ m ∈ own, m.isOrdered = true) : kindredItems own others = true := by
  induction own generalizing others with
  | nil => cases others <;> rfl
  | cons m own ihr =>
    cases others with
    | nil => rfl
    | cons n others =>
      rw [List.forall_mem_cons] at hordered
      have hrest := ihr (fun k m' n' hm hn => ih (k + 1) m' n' hm hn) hordered.2
      rw [kindredItems, ih 0 m n rfl rfl hordered.1, hrest]
      rfl

theorem kindred (h : a.Rearranged b) (ha : a.isOrdered = true) : a.kindred b = true := by
  induction h with
  | simple | absentList | absentSet | set | absentMap => rfl
  | complex _ _ _ ih =>
    obtain ⟨hsorted, hown⟩ := complex_ordered_iff.1 ha
    rw [Node.kindred]
    exact fields_kindred hsorted ih hown
  | list _ _ _ ih =>
    rw [Node.kindred]
    exact items_kindred ih (items_ordered ha)
  | map _ _ _ ih =>
    obtain ⟨hsorted, hown⟩ := map_ordered_iff.1 ha
    rw [Node.kindred]
    exact fields_kindred hsorted ih hown

theorem fields_ordered {own others : List (String × Node)} (hown : Keyed.Sorted own)
    (hordered : ∀ e ∈ own, e.2.isOrdered = true)
    (hnames : own.map Prod.fst = others.map Prod.fst)
    (ih : ∀ name m n, own.lookup name = some m → others.lookup name = some n →
      m.isOrdered = true → n.isOrdered = true) :
    Keyed.Sorted others ∧ ∀ e ∈ others, e.2.isOrdered = true := by
  have hothers : Keyed.Sorted others := (Keyed.sorted_congr hnames).1 hown
  refine ⟨hothers, fun e he => ?_⟩
  have hname : e.1 ∈ own.map Prod.fst := hnames ▸ List.mem_map_of_mem he
  obtain ⟨m, hm⟩ := Option.isSome_iff_exists.1 (Keyed.lookup_isSome_iff.2 hname)
  exact ih e.1 m e.2 hm (Keyed.lookup_of_mem hothers he) (hordered _ (Keyed.mem_of_lookup hm))

theorem items_ordered {own others : List Node} (hordered : ∀ m ∈ own, m.isOrdered = true)
    (hlength : own.length = others.length)
    (ih : ∀ (k : Nat) (m n : Node), own[k]? = some m → others[k]? = some n →
      m.isOrdered = true → n.isOrdered = true) : ∀ n ∈ others, n.isOrdered = true := by
  intro n hn
  obtain ⟨k, hk⟩ := List.mem_iff_getElem?.1 hn
  have hlt : k < own.length := hlength ▸ (List.getElem?_eq_some_iff.1 hk).1
  exact ih k _ n (List.getElem?_eq_getElem hlt) hk (hordered _ (List.getElem_mem hlt))

theorem isOrdered (h : a.Rearranged b) (ha : a.isOrdered = true) : b.isOrdered = true := by
  induction h with
  | simple | absentList | absentSet | absentMap => rfl
  | complex _ hnames _ ih =>
    obtain ⟨hsorted, hown⟩ := complex_ordered_iff.1 ha
    exact complex_ordered_iff.2 (fields_ordered hsorted hown hnames ih)
  | list _ hlength _ ih =>
    exact itemsOrdered_iff.2 (items_ordered (itemsOrdered_iff.1 ha) hlength ih)
  | set _ hperm hlength _ ih =>
    have harranged := items_ordered (set_ordered_iff.1 ha) hlength ih
    exact set_ordered_iff.2 fun n hn => harranged n (hperm.mem_iff.2 hn)
  | map _ hkeys _ ih =>
    obtain ⟨hsorted, hown⟩ := map_ordered_iff.1 ha
    exact map_ordered_iff.2 (fields_ordered hsorted hown hkeys ih)

theorem sameContent (h : a.Rearranged b) (ha : a.isOrdered = true) : a.sameContent b = true := by
  -- It has its old fingerprint, and nothing that is absent came to be of another kind.
  have hb := h.isOrdered ha
  have hfingerprint := fingerprint_inj.2 (h.congruent.fingerprintChars ha hb)
  exact sameContent_of_fingerprint hb hfingerprint (h.kindred ha)

end Rearranged

/-! ## Equivalence -/

theorem sameContent_comm {a b : Node} (ha : a.isOrdered = true) (hb : b.isOrdered = true) :
    a.sameContent b = b.sameContent a := by
  rw [Bool.eq_iff_iff]
  exact ⟨sameContent_symm ha hb, sameContent_symm hb ha⟩

theorem sameContent_congr {a a' b : Node} (ha : a.isOrdered = true) (ha' : a'.isOrdered = true)
    (h : a.sameContent a' = true) : a'.sameContent b = a.sameContent b := by
  rw [Bool.eq_iff_iff]
  exact ⟨sameContent_trans h, sameContent_trans (sameContent_symm ha ha' h)⟩

/-- Equal content is an equivalence, and rearranging both sides does not change the answer. -/
theorem sameContent_equivalence :
    (Equivalence fun a b : { n : Node // n.isOrdered = true } => a.1.sameContent b.1 = true) ∧
      ∀ {a a' b b' : Node}, a.isOrdered = true → b.isOrdered = true → a.Rearranged a' →
        b.Rearranged b' → a'.sameContent b' = a.sameContent b := by
  refine ⟨⟨fun a => sameContent_refl a.2, fun {a b} => sameContent_symm a.2 b.2,
    fun hab hbc => sameContent_trans hab hbc⟩, fun {a a' b b'} ha hb hleft hright => ?_⟩
  have ha' := hleft.isOrdered ha
  have hb' := hright.isOrdered hb
  calc a'.sameContent b'
    _ = a.sameContent b' := sameContent_congr ha ha' (hleft.sameContent ha)
    _ = b'.sameContent a := sameContent_comm ha hb'
    _ = b.sameContent a := sameContent_congr hb hb' (hright.sameContent hb)
    _ = a.sameContent b := sameContent_comm hb ha

end Node

/-! ## A small example

A note whose tags stand in another order, saved again at another scope.
-/

namespace Sample

open Node

theorem tags_rearranged :
    (taggedNote global ["b", "a"] untitled).Rearranged (taggedNote alice ["a", "b"] untitled) := by
  refine .complex rfl rfl fun name m n hm hn => ?_
  rcases Keyed.mem_of_lookup hm with _ | ⟨_, _ | ⟨_, hnone⟩⟩
  · cases hn
    -- Each old tag moves next to its equal, before the two change places.
    refine @Rearranged.set _ _ _ _ [.simple { definedAt := alice, typeName := "string" } (some "b"),
      .simple { definedAt := alice, typeName := "string" } (some "a")] rfl (.swap _ _ _) rfl
      fun k m n hm hn => ?_
    match k with
    | 0 | 1 => cases hm; cases hn; exact .simple rfl
    | _ + 2 => cases hm
  · cases hn
    exact .simple rfl
  · cases hnone

/-- Both notes have the content of a third with these tags. -/
theorem tags_compare_alike :
    (taggedNote global ["b", "a"] untitled).isOrdered = true ∧
      (taggedNote bob ["a", "b"] untitled).isOrdered = true ∧
      (taggedNote global ["b", "a"] untitled).Rearranged (taggedNote alice ["a", "b"] untitled) ∧
      (taggedNote alice ["a", "b"] untitled).sameContent (taggedNote bob ["a", "b"] untitled) =
        (taggedNote global ["b", "a"] untitled).sameContent
          (taggedNote bob ["a", "b"] untitled) := by
  have hfirst : (taggedNote global ["b", "a"] untitled).isOrdered = true := by decide
  have hthird : (taggedNote bob ["a", "b"] untitled).isOrdered = true := by decide
  exact ⟨hfirst, hthird, tags_rearranged,
    sameContent_equivalence.2 hfirst hthird tags_rearranged (.refl _)⟩

end Sample

end ScopedConfig
