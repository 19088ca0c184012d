import Mathlib.Data.List.Perm.Basic
import Mathlib.Data.List.Sort
import ScopedConfig.Proofs.Kindred
import ScopedConfig.Proofs.Run

/-!
# Fingerprints are canonical

A fingerprint stands for a value: a text, a complex node with its type, a list, a set without an
order, a map, or nothing. Two nodes have one fingerprint exactly if they stand for one value.
-/

namespace ScopedConfig

namespace Fingerprint

/-! ## Sorted parts -/

theorem insertPart_eq (part : List Char) (parts : List (List Char)) :
    insertPart part parts =
      parts.orderedInsert (fun p q => (compare p q).isLE = true) part := by
  induction parts with
  | nil => rfl
  | cons p rest ih => rw [insertPart, List.orderedInsert_cons, ih]

theorem sortParts_eq (parts : List (List Char)) :
    sortParts parts = parts.insertionSort fun p q => (compare p q).isLE = true := by
  induction parts with
  | nil => rfl
  | cons p rest ih => rw [sortParts, List.insertionSort_cons, ih, insertPart_eq]

theorem sortParts_perm (parts : List (List Char)) : (sortParts parts).Perm parts := by
  rw [sortParts_eq]
  exact List.perm_insertionSort _ _

theorem sortParts_sorted (parts : List (List Char)) :
    (sortParts parts).Pairwise fun p q => (compare p q).isLE = true := by
  have : Std.Total fun p q : List Char => (compare p q).isLE = true :=
    ⟨fun p q => by
      cases h : compare p q with
      | lt | eq => exact .inl rfl
      | gt => exact .inr (by rw [Std.OrientedCmp.lt_of_gt h]; rfl)⟩
  have : IsTrans (List Char) fun p q => (compare p q).isLE = true :=
    ⟨fun _ _ _ => Std.TransCmp.isLE_trans⟩
  rw [sortParts_eq]
  exact List.pairwise_insertionSort _ _

/-- Sorting forgets the order and nothing else. -/
theorem sortParts_eq_iff {ps qs : List (List Char)} :
    sortParts ps = sortParts qs ↔ ps.Perm qs := by
  constructor
  · intro h
    exact (sortParts_perm ps).symm.trans (h ▸ sortParts_perm qs)
  · intro h
    refine List.Perm.eq_of_pairwise (fun p q _ _ hpq hqp => ?_) (sortParts_sorted ps)
      (sortParts_sorted qs) ((sortParts_perm ps).trans (h.trans (sortParts_perm qs).symm))
    exact Std.LawfulEqOrd.eq_of_compare (Std.OrientedCmp.isLE_antisymm hpq hqp)

end Fingerprint

namespace Node

open Fingerprint

/-! ## Nodes that stand for one value -/

/-- A text, list, set or map that is not there. -/
def isNothing : Node → Bool
  | simple _ none | list _ none | set _ none | map _ none => true
  | _ => false

/-- The nodes stand for one value. Whatever is not there stands for nothing, of which kind it may
be; the items of a set may stand in any order. -/
inductive Congruent : Node → Node → Prop where
  | nothing {a b : Node} (ha : a.isNothing = true) (hb : b.isNothing = true) : Congruent a b
  | simple {i j : Info} {text : String} :
    Congruent (.simple i (some text)) (.simple j (some text))
  | complex {i j : Info} {own others : List (String × Node)} {declared declared' : List String}
    (htype : i.typeName = j.typeName)
    (hnames : ∀ name, name ∈ own.map Prod.fst ↔ name ∈ others.map Prod.fst)
    (hvalues : ∀ name m n, own.lookup name = some m → others.lookup name = some n →
      Congruent m n) :
    Congruent (.complex i own declared) (.complex j others declared')
  | list {i j : Info} {own others : List Node} (hlength : own.length = others.length)
    (hitems : ∀ (k : Nat) (m n : Node), own[k]? = some m → others[k]? = some n → Congruent m n) :
    Congruent (.list i (some own)) (.list j (some others))
  | set {i j : Info} {own others arranged : List Node} (hperm : arranged.Perm others)
    (hlength : own.length = arranged.length)
    (hitems : ∀ (k : Nat) (m n : Node), own[k]? = some m → arranged[k]? = some n → Congruent m n) :
    Congruent (.set i (some own)) (.set j (some others))
  | map {i j : Info} {own others : List (String × Node)}
    (hkeys : ∀ key, key ∈ own.map Prod.fst ↔ key ∈ others.map Prod.fst)
    (hentries : ∀ key m n, own.lookup key = some m → others.lookup key = some n →
      Congruent m n) :
    Congruent (.map i (some own)) (.map j (some others))

/-! ## One value, one fingerprint -/

theorem fingerprintChars_of_isNothing {n : Node} (h : n.isNothing = true) :
    n.fingerprintChars = absent := by
  cases n with
  | complex => cases h
  | simple _ own | list _ own | set _ own | map _ own =>
    cases own with
    | none => rfl
    | some own => cases h

theorem itemParts_eq_map (own : List Node) : itemParts own = own.map fingerprintChars := by
  induction own with
  | nil => rfl
  | cons n rest ih => rw [itemParts, ih, List.map_cons]

theorem itemParts_perm {own others : List Node} (h : own.Perm others) :
    (itemParts own).Perm (itemParts others) := by
  rw [itemParts_eq_map, itemParts_eq_map]
  exact h.map _

theorem keys_eq_of_mem_iff {own others : List (String × Node)} (hown : Keyed.Sorted own)
    (hothers : Keyed.Sorted others)
    (h : ∀ key, key ∈ own.map Prod.fst ↔ key ∈ others.map Prod.fst) :
    own.map Prod.fst = others.map Prod.fst := by
  have hperm := (List.perm_ext_iff_of_nodup (Keyed.nodup_of_sorted hown)
    (Keyed.nodup_of_sorted hothers)).2 h
  refine hperm.eq_of_pairwise (fun k l _ _ hkl hlk => ?_) (Keyed.sorted_iff.1 hown)
    (Keyed.sorted_iff.1 hothers)
  simp [Std.OrientedCmp.gt_of_lt hkl] at hlk

theorem fieldParts_of_lookup {own others : List (String × Node)} (hown : Keyed.Sorted own)
    (hothers : Keyed.Sorted others)
    (hnames : ∀ name, name ∈ own.map Prod.fst ↔ name ∈ others.map Prod.fst)
    (hvalues : ∀ name m n, own.lookup name = some m → others.lookup name = some n →
      m.fingerprintChars = n.fingerprintChars) : fieldParts own = fieldParts others := by
  have hkeys := keys_eq_of_mem_iff hown hothers hnames
  clear hnames
  induction own generalizing others with
  | nil => rw [List.map_eq_nil_iff.1 hkeys.symm]
  | cons e rest ih =>
    obtain ⟨name, m⟩ := e
    cases others with
    | nil => simp at hkeys
    | cons f others =>
      obtain ⟨name', n⟩ := f
      obtain ⟨hname, htail⟩ := List.cons.inj hkeys
      obtain rfl : name = name' := hname
      have hrest := ih (List.pairwise_cons.1 hown).2 (List.pairwise_cons.1 hothers).2
        (fun key m' n' hm' hn' => ?_) htail
      · have hfirst := hvalues name m n (by simp) (by simp)
        simp only [fieldParts, List.map_cons] at hrest ⊢
        rw [hfirst, hrest]
      · -- The first name does not come again.
        have hne : (key == name) = false := by
          rw [beq_eq_false_iff_ne]
          rintro rfl
          rw [Keyed.lookup_tail_of_sorted hown] at hm'
          cases hm'
        exact hvalues key m' n' (by rw [List.lookup_cons, hne, hm'])
          (by rw [List.lookup_cons, hne, hn'])

theorem Congruent.fingerprintChars {a b : Node} (h : a.Congruent b) (ha : a.isOrdered = true)
    (hb : b.isOrdered = true) : a.fingerprintChars = b.fingerprintChars := by
  -- For lists, and for sets once their items are paired.
  have items {own others : List Node} (hlength : own.length = others.length)
      (ih : ∀ (k : Nat) (m n : Node), own[k]? = some m → others[k]? = some n → m.isOrdered = true →
        n.isOrdered = true → m.fingerprintChars = n.fingerprintChars)
      (hown : ∀ m ∈ own, m.isOrdered = true) (hothers : ∀ n ∈ others, n.isOrdered = true) :
      itemParts own = itemParts others := by
    rw [itemParts_eq_map, itemParts_eq_map]
    refine List.ext_getElem (by simpa using hlength) fun k hk hk' => ?_
    rw [List.length_map] at hk hk'
    rw [List.getElem_map, List.getElem_map]
    exact ih k _ _ (List.getElem?_eq_getElem hk) (List.getElem?_eq_getElem hk')
      (hown _ (List.getElem_mem hk)) (hothers _ (List.getElem_mem hk'))
  induction h with
  | nothing hnone hnone' =>
    rw [fingerprintChars_of_isNothing hnone, fingerprintChars_of_isNothing hnone']
  | simple => rfl
  | complex htype hnames _ ih =>
    obtain ⟨hsorted, hown⟩ := complex_ordered_iff.1 ha
    obtain ⟨hsorted', hothers⟩ := complex_ordered_iff.1 hb
    have hparts := fieldParts_of_lookup hsorted hsorted' hnames fun name m n hm hn =>
      ih name m n hm hn (hown _ (Keyed.mem_of_lookup hm)) (hothers _ (Keyed.mem_of_lookup hn))
    rw [Node.fingerprintChars, Node.fingerprintChars, htype, fieldChars_congr hparts]
  | list hlength _ ih =>
    have hparts := items hlength ih (items_ordered ha) (items_ordered hb)
    rw [Node.fingerprintChars, Node.fingerprintChars, hparts]
  | set hperm hlength _ ih =>
    have hothers := set_ordered_iff.1 hb
    have hparts := items hlength ih (set_ordered_iff.1 ha)
      fun n hn => hothers n (hperm.mem_iff.1 hn)
    -- The parts of a set are sorted, so it does not matter how its items were paired.
    have hsame : sortParts (itemParts _) = sortParts (itemParts _) :=
      sortParts_eq_iff.2 (hparts ▸ itemParts_perm hperm)
    rw [Node.fingerprintChars, Node.fingerprintChars, hsame]
  | map hkeys _ ih =>
    obtain ⟨hsorted, hown⟩ := map_ordered_iff.1 ha
    obtain ⟨hsorted', hothers⟩ := map_ordered_iff.1 hb
    have hparts := fieldParts_of_lookup hsorted hsorted' hkeys fun key m n hm hn =>
      ih key m n hm hn (hown _ (Keyed.mem_of_lookup hm)) (hothers _ (Keyed.mem_of_lookup hn))
    rw [Node.fingerprintChars, Node.fingerprintChars, fieldChars_congr hparts]

/-! ## One fingerprint, one value -/

theorem lead_eq_n_iff (n : Node) : n.lead = 'n' ↔ n.isNothing = true := by
  cases n with
  | complex => simp [lead, isNothing]
  | simple _ own | list _ own | set _ own | map _ own => cases own <;> simp [lead, isNothing]

theorem isNothing_of_fingerprint {a b : Node} (ha : a.isNothing = true)
    (h : a.fingerprint = b.fingerprint) : b.isNothing = true := by
  rw [← lead_eq_n_iff] at ha ⊢
  rw [← lead_of_fingerprint h, ha]

theorem congruent_values {own others : List (String × Node)}
    (ih : ∀ e ∈ own, ∀ {b : Node}, e.2.fingerprint = b.fingerprint → e.2.Congruent b)
    (h : fieldParts own = fieldParts others) {name : String} {m n : Node}
    (hm : own.lookup name = some m) (hn : others.lookup name = some n) : m.Congruent n := by
  have hlookup : (own.lookup name).map fingerprint = (others.lookup name).map fingerprint :=
    lookup_of_fieldParts h
  rw [hm, hn] at hlookup
  exact ih _ (Keyed.mem_of_lookup hm) (Option.some.inj hlookup)

theorem congruent_items {own others : List Node}
    (ih : ∀ m ∈ own, ∀ {b : Node}, m.fingerprint = b.fingerprint → m.Congruent b)
    (h : itemParts own = itemParts others) {k : Nat} {m n : Node}
    (hm : own[k]? = some m) (hn : others[k]? = some n) : m.Congruent n := by
  have hpart := congrArg (·[k]?) h
  simp only [itemParts_eq_map, List.getElem?_map, hm, hn, Option.map_some] at hpart
  exact ih m (List.mem_of_getElem? hm) (fingerprint_inj.2 (Option.some.inj hpart))

theorem congruent_of_fingerprint {a b : Node} (h : a.fingerprint = b.fingerprint) :
    a.Congruent b := by
  have names {own others : List (String × Node)} (h : fieldParts own = fieldParts others)
      (name : String) : name ∈ own.map Prod.fst ↔ name ∈ others.map Prod.fst := by
    rw [names_of_fieldParts h]
  have length {own others : List Node} (h : itemParts own = itemParts others) :
      own.length = others.length := by
    simpa [itemParts_eq_map] using congrArg List.length h
  induction a using tree_induction generalizing b with
  | absentList | absentSet | absentMap => exact .nothing rfl (isNothing_of_fingerprint rfl h)
  | simple i text =>
    cases text with
    | none => exact .nothing rfl (isNothing_of_fingerprint rfl h)
    | some text =>
      obtain ⟨j, rfl⟩ := eq_of_fingerprint_text h
      exact .simple
  | complex i own declared ih =>
    obtain ⟨j, others, declared', rfl, htype, hparts⟩ := eq_of_fingerprint_complex h
    exact .complex htype (names hparts) fun _ _ _ => congruent_values ih hparts
  | list i own ih =>
    obtain ⟨j, others, rfl, hparts⟩ := eq_of_fingerprint_list h
    exact .list (length hparts) fun _ _ _ => congruent_items ih hparts
  | set i own ih =>
    obtain ⟨j, others, rfl, hparts⟩ := eq_of_fingerprint_set h
    have hperm := sortParts_eq_iff.1 hparts
    rw [itemParts_eq_map others] at hperm
    -- The parts of the one side, in its order, belong to the other side's items.
    obtain ⟨arranged, harranged, hperm⟩ :
        ∃ arranged : List Node, itemParts own = arranged.map fingerprintChars ∧
          arranged.Perm others := by
      have hcomp := congrFun (congrFun (List.eq_map_comp_perm fingerprintChars) (itemParts own))
        others
      exact hcomp.mpr hperm
    rw [← itemParts_eq_map] at harranged
    exact .set hperm (length harranged) fun _ _ _ => congruent_items ih harranged
  | map i own ih =>
    obtain ⟨j, others, rfl, hparts⟩ := eq_of_fingerprint_map h
    exact .map (names hparts) fun _ _ _ => congruent_values ih hparts

/-- Fingerprints are equal exactly if the nodes stand for one value. -/
theorem fingerprint_eq_iff_congruent {a b : Node} (ha : a.isOrdered = true)
    (hb : b.isOrdered = true) : a.fingerprint = b.fingerprint ↔ a.Congruent b :=
  ⟨congruent_of_fingerprint, fun h => fingerprint_inj.2 (h.fingerprintChars ha hb)⟩

end Node

/-! ## A small example

The tags of a note have no order, and a title may be absent as a text or as a list.
-/

namespace Sample

def taggedNote (place : Scope.Path) (tags : List String) (title : Node) : Node :=
  .complex { definedAt := place, typeName := "Note" }
    [("tags", .set { definedAt := place, typeName := "string" }
        (some (tags.map fun t => .simple { definedAt := place, typeName := "string" } (some t)))),
      ("title", title)] ["tags"]

def untitled : Node := .simple { definedAt := global, typeName := "string" } none

def unlisted : Node := .list { definedAt := alice, typeName := "string" } none

/-- The second note stands for the value of the first. The third has one tag that looks like the two
tags of the first where it stands in the fingerprint. -/
theorem tags_congruent :
    (taggedNote global ["b", "a"] untitled).isOrdered = true ∧
      (taggedNote alice ["a", "b"] unlisted).isOrdered = true ∧
      (taggedNote alice ["a\",\"b"] unlisted).isOrdered = true ∧
      (taggedNote global ["b", "a"] untitled).Congruent (taggedNote alice ["a", "b"] unlisted) ∧
      ¬ (taggedNote global ["b", "a"] untitled).Congruent
        (taggedNote alice ["a\",\"b"] unlisted) := by
  have hfirst : (taggedNote global ["b", "a"] untitled).isOrdered = true := by decide
  have hsecond : (taggedNote alice ["a", "b"] unlisted).isOrdered = true := by decide
  have hthird : (taggedNote alice ["a\",\"b"] unlisted).isOrdered = true := by decide
  refine ⟨hfirst, hsecond, hthird, ?_, ?_⟩
  · exact (Node.fingerprint_eq_iff_congruent hfirst hsecond).1 rfl
  · rw [← Node.fingerprint_eq_iff_congruent hfirst hthird, Node.fingerprint_inj]
    decide

end Sample

end ScopedConfig
