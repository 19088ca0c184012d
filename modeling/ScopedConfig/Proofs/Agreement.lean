import ScopedConfig.Proofs.Canonical

/-!
# Equal content and equal fingerprints

Content is compared in two ways, part by part and by fingerprints. The first way does not look at
types, the second one not at kinds of what is absent. In everything else they agree.
-/

namespace ScopedConfig

namespace Node

open Fingerprint

/-! ## Types -/

mutual

/-- The complex parts that both nodes have are of one type. Sets are not compared part by part. -/
def sameTypes : Node → Node → Bool
  | complex i ps _, complex j qs _ => i.typeName == j.typeName && sameTypesFields ps qs
  | list _ (some xs), list _ (some ys) => sameTypesItems xs ys
  | map _ (some es), map _ (some fs) => sameTypesFields es fs
  | _, _ => true
termination_by structural a => a

def sameTypesFields : List (String × Node) → List (String × Node) → Bool
  | [], _ => true
  | (k, n) :: rest, others =>
    (match others.lookup k with
      | some m => n.sameTypes m
      | none => true) && sameTypesFields rest others
termination_by structural a => a

def sameTypesItems : List Node → List Node → Bool
  | m :: as, n :: bs => m.sameTypes n && sameTypesItems as bs
  | _, _ => true
termination_by structural a => a

end

theorem sameTypesFields_iff {own others : List (String × Node)} :
    sameTypesFields own others = true ↔
      ∀ e ∈ own, ∀ m, others.lookup e.1 = some m → e.2.sameTypes m = true := by
  induction own with
  | nil => simp [sameTypesFields]
  | cons e rest ih =>
    obtain ⟨k, n⟩ := e
    rw [sameTypesFields, Bool.and_eq_true, ih]
    cases h : others.lookup k <;> simp [h]

/-! ## Equal content -/

theorem kindredFields_of_sameFields {own others : List (String × Node)}
    (ih : ∀ e ∈ own, ∀ {m : Node}, e.2.sameContent m = true → e.2.kindred m = true)
    (h : sameFields own others = true) : kindredFields own others = true := by
  refine kindredFields_iff.2 fun e he m hm => ?_
  obtain ⟨m', hm', hsame⟩ := sameFields_iff.1 h e he
  obtain rfl : m' = m := Option.some.inj (hm'.symm.trans hm)
  exact ih e he hsame

theorem kindredItems_of_sameItems {own others : List Node}
    (ih : ∀ n ∈ own, ∀ {m : Node}, n.sameContent m = true → n.kindred m = true)
    (h : sameItems own others = true) : kindredItems own others = true := by
  induction own generalizing others with
  | nil => cases others <;> rfl
  | cons n rest ihr =>
    cases others with
    | nil => rfl
    | cons m others =>
      rw [sameItems, Bool.and_eq_true] at h
      rw [List.forall_mem_cons] at ih
      rw [kindredItems, ih.1 h.1, ihr ih.2 h.2]
      rfl

theorem kindred_of_sameContent {a b : Node} (h : a.sameContent b = true) : a.kindred b = true := by
  induction a using tree_induction generalizing b with
  | simple i text =>
    obtain ⟨j, rfl⟩ := eq_of_sameContent_simple h
    rfl
  | complex i own declared ih =>
    obtain ⟨j, others, declared', rfl, -, hfields⟩ := eq_of_sameContent_complex h
    rw [kindred]
    exact kindredFields_of_sameFields ih hfields
  | absentList i =>
    obtain ⟨j, rfl⟩ := eq_of_sameContent_absentList h
    rfl
  | list i own ih =>
    obtain ⟨j, others, rfl, hitems⟩ := eq_of_sameContent_list h
    rw [kindred]
    exact kindredItems_of_sameItems ih hitems
  | absentSet i =>
    obtain ⟨j, rfl⟩ := eq_of_sameContent_absentSet h
    rfl
  | set i own ih =>
    obtain ⟨j, others, rfl, -⟩ := eq_of_sameContent_set h
    rfl
  | absentMap i =>
    obtain ⟨j, rfl⟩ := eq_of_sameContent_absentMap h
    rfl
  | map i own ih =>
    obtain ⟨j, others, rfl, -, hentries⟩ := eq_of_sameContent_map h
    rw [kindred]
    exact kindredFields_of_sameFields ih hentries

theorem names_of_sameFields {own others : List (String × Node)} {name : String}
    (h : sameFields own others = true) (hname : name ∈ own.map Prod.fst) :
    name ∈ others.map Prod.fst := by
  obtain ⟨e, he, rfl⟩ := List.mem_map.1 hname
  obtain ⟨m, hm, -⟩ := sameFields_iff.1 h e he
  exact Keyed.lookup_isSome_iff.1 (by rw [hm]; rfl)

theorem fieldParts_of_sameFields {own others : List (String × Node)}
    (ih : ∀ e ∈ own, ∀ {m : Node}, e.2.isOrdered = true → m.isOrdered = true →
      e.2.sameContent m = true → e.2.sameTypes m = true → e.2.fingerprintChars = m.fingerprintChars)
    (hsorted : Keyed.Sorted own) (hown : ∀ e ∈ own, e.2.isOrdered = true)
    (hsorted' : Keyed.Sorted others) (hothers : ∀ e ∈ others, e.2.isOrdered = true)
    (hlength : own.length = others.length) (h : sameFields own others = true)
    (htypes : sameTypesFields own others = true) : fieldParts own = fieldParts others := by
  have hback : sameFields others own = true :=
    sameFields_symm hsorted hsorted' hlength
      (fun e he f hf => sameContent_symm (hown e he) (hothers f hf)) h
  refine fieldParts_of_lookup hsorted hsorted'
    (fun name => ⟨names_of_sameFields h, names_of_sameFields hback⟩) fun name m n hm hn => ?_
  obtain ⟨n', hn', hsame⟩ := sameFields_lookup h hm
  obtain rfl : n' = n := Option.some.inj (hn'.symm.trans hn)
  have he := Keyed.mem_of_lookup hm
  exact ih _ he (hown _ he) (hothers _ (Keyed.mem_of_lookup hn)) hsame
    (sameTypesFields_iff.1 htypes _ he n' hn)

theorem itemParts_of_sameItems {own others : List Node}
    (ih : ∀ n ∈ own, ∀ {m : Node}, n.isOrdered = true → m.isOrdered = true →
      n.sameContent m = true → n.sameTypes m = true → n.fingerprintChars = m.fingerprintChars)
    (hown : ∀ n ∈ own, n.isOrdered = true) (hothers : ∀ n ∈ others, n.isOrdered = true)
    (h : sameItems own others = true) (htypes : sameTypesItems own others = true) :
    itemParts own = itemParts others := by
  induction own generalizing others with
  | nil =>
    cases others with
    | nil => rfl
    | cons => simp [sameItems] at h
  | cons n rest ihr =>
    cases others with
    | nil => simp [sameItems] at h
    | cons m others =>
      rw [sameItems, Bool.and_eq_true] at h
      rw [sameTypesItems, Bool.and_eq_true] at htypes
      rw [List.forall_mem_cons] at ih hown hothers
      rw [itemParts, itemParts, ih.1 hown.1 hothers.1 h.1 htypes.1,
        ihr ih.2 hown.2 hothers.2 h.2 htypes.2]

theorem fingerprintChars_of_sameContent {a b : Node} (ha : a.isOrdered = true)
    (hb : b.isOrdered = true) (h : a.sameContent b = true) (htypes : a.sameTypes b = true) :
    a.fingerprintChars = b.fingerprintChars := by
  induction a using tree_induction generalizing b with
  | simple i text =>
    obtain ⟨j, rfl⟩ := eq_of_sameContent_simple h
    cases text <;> rfl
  | complex i own declared ih =>
    obtain ⟨j, others, declared', rfl, hlength, hfields⟩ := eq_of_sameContent_complex h
    obtain ⟨hsorted, hown⟩ := complex_ordered_iff.1 ha
    obtain ⟨hsorted', hothers⟩ := complex_ordered_iff.1 hb
    rw [sameTypes, Bool.and_eq_true, beq_iff_eq] at htypes
    have hparts :=
      fieldParts_of_sameFields ih hsorted hown hsorted' hothers hlength hfields htypes.2
    rw [fingerprintChars, fingerprintChars, htypes.1, fieldChars_congr hparts]
  | absentList i =>
    obtain ⟨j, rfl⟩ := eq_of_sameContent_absentList h
    rfl
  | list i own ih =>
    obtain ⟨j, others, rfl, hitems⟩ := eq_of_sameContent_list h
    rw [sameTypes] at htypes
    have hparts := itemParts_of_sameItems ih (itemsOrdered_iff.1 ha) (itemsOrdered_iff.1 hb) hitems
      htypes
    rw [fingerprintChars, fingerprintChars, hparts]
  | absentSet i =>
    obtain ⟨j, rfl⟩ := eq_of_sameContent_absentSet h
    rfl
  | set i own ih =>
    -- Sets are compared by the fingerprints of their items, so types play no part here.
    obtain ⟨j, others, rfl, hparts⟩ := eq_of_sameContent_set h
    rw [fingerprintChars, fingerprintChars, hparts]
  | absentMap i =>
    obtain ⟨j, rfl⟩ := eq_of_sameContent_absentMap h
    rfl
  | map i own ih =>
    obtain ⟨j, others, rfl, hlength, hentries⟩ := eq_of_sameContent_map h
    obtain ⟨hsorted, hown⟩ := map_ordered_iff.1 ha
    obtain ⟨hsorted', hothers⟩ := map_ordered_iff.1 hb
    rw [sameTypes] at htypes
    have hparts := fieldParts_of_sameFields ih hsorted hown hsorted' hothers hlength hentries htypes
    rw [fingerprintChars, fingerprintChars, fieldChars_congr hparts]

/-! ## Equal fingerprints -/

theorem sameTypesFields_of_fieldParts {own others : List (String × Node)}
    (ih : ∀ e ∈ own, ∀ {m : Node}, e.2.isOrdered = true → e.2.fingerprint = m.fingerprint →
      e.2.sameTypes m = true)
    (hsorted : Keyed.Sorted own) (hown : ∀ e ∈ own, e.2.isOrdered = true)
    (h : fieldParts own = fieldParts others) : sameTypesFields own others = true := by
  refine sameTypesFields_iff.2 fun e he m hm => ?_
  have hlookup : (own.lookup e.1).map fingerprint = (others.lookup e.1).map fingerprint :=
    lookup_of_fieldParts h
  rw [Keyed.lookup_of_mem hsorted he, hm] at hlookup
  exact ih e he (hown e he) (Option.some.inj hlookup)

theorem sameTypesItems_of_itemParts {own others : List Node}
    (ih : ∀ n ∈ own, ∀ {m : Node}, n.isOrdered = true → n.fingerprint = m.fingerprint →
      n.sameTypes m = true)
    (hown : ∀ n ∈ own, n.isOrdered = true) (h : itemParts own = itemParts others) :
    sameTypesItems own others = true := by
  induction own generalizing others with
  | nil => cases others <;> rfl
  | cons n rest ihr =>
    cases others with
    | nil => rfl
    | cons m others =>
      rw [itemParts, itemParts, List.cons.injEq] at h
      rw [List.forall_mem_cons] at ih hown
      rw [sameTypesItems, ih.1 hown.1 (fingerprint_inj.2 h.1), ihr ih.2 hown.2 h.2]
      rfl

/-- Fingerprints tell types apart, at every depth. -/
theorem sameTypes_of_fingerprint {a b : Node} (ha : a.isOrdered = true)
    (h : a.fingerprint = b.fingerprint) : a.sameTypes b = true := by
  induction a using tree_induction generalizing b with
  | simple | absentList | absentSet | absentMap | set => cases b <;> rfl
  | complex i own declared ih =>
    obtain ⟨j, others, declared', rfl, htype, hparts⟩ := eq_of_fingerprint_complex h
    obtain ⟨hsorted, hown⟩ := complex_ordered_iff.1 ha
    rw [sameTypes, htype, beq_self_eq_true, Bool.true_and]
    exact sameTypesFields_of_fieldParts ih hsorted hown hparts
  | list i own ih =>
    obtain ⟨j, others, rfl, hparts⟩ := eq_of_fingerprint_list h
    rw [sameTypes]
    exact sameTypesItems_of_itemParts ih (items_ordered ha) hparts
  | map i own ih =>
    obtain ⟨j, others, rfl, hparts⟩ := eq_of_fingerprint_map h
    obtain ⟨hsorted, hown⟩ := map_ordered_iff.1 ha
    rw [sameTypes]
    exact sameTypesFields_of_fieldParts ih hsorted hown hparts

/-! ## Agreement -/

/-- Equal content and equal fingerprints are the same thing up to types, which only fingerprints
tell apart, and up to the kinds of absent values, which only content tells apart. -/
theorem sameContent_iff_fingerprint {a b : Node} (ha : a.isOrdered = true)
    (hb : b.isOrdered = true) :
    a.sameContent b = true ∧ a.sameTypes b = true ↔
      a.fingerprint = b.fingerprint ∧ a.kindred b = true := by
  constructor
  · rintro ⟨hcontent, htypes⟩
    have hchars := fingerprintChars_of_sameContent ha hb hcontent htypes
    exact ⟨fingerprint_inj.2 hchars, kindred_of_sameContent hcontent⟩
  · rintro ⟨hfingerprint, hkinds⟩
    have hcontent := sameContent_of_fingerprint hb hfingerprint hkinds
    exact ⟨hcontent, sameTypes_of_fingerprint ha hfingerprint⟩

end Node

/-! ## A small example

A note that is retyped has its old content and another fingerprint.
-/

namespace Sample

def note (place : Scope.Path) (type : String) (title : Node) : Node :=
  .complex { definedAt := place, typeName := type } [("title", title)] ["title"]

/-- The note of another scope agrees with the first in both ways. -/
theorem notes_agree :
    (note global "Note" untitled).isOrdered = true ∧ (note alice "Note" untitled).isOrdered = true ∧
      (note global "Note" untitled).sameContent (note alice "Note" untitled) = true ∧
      (note global "Note" untitled).sameTypes (note alice "Note" untitled) = true ∧
      (note global "Note" untitled).fingerprint = (note alice "Note" untitled).fingerprint := by
  have hfirst : (note global "Note" untitled).isOrdered = true := by decide
  have hsecond : (note alice "Note" untitled).isOrdered = true := by decide
  have hboth := (Node.sameContent_iff_fingerprint hfirst hsecond).2 ⟨rfl, by decide⟩
  exact ⟨hfirst, hsecond, hboth.1, hboth.2, rfl⟩

/-- A retyped note is unchanged on its own and changed as an item of a set. A title that is absent
as a list and no longer as a text is the other way round. -/
theorem equalities_disagree :
    ((note global "Note" untitled).sameContent (note global "Memo" untitled) = true ∧
      (note global "Note" untitled).fingerprint ≠ (note global "Memo" untitled).fingerprint) ∧
    (note global "Note" untitled).sameContent (note global "Note" unlisted) = false ∧
      (note global "Note" untitled).fingerprint = (note global "Note" unlisted).fingerprint := by
  refine ⟨⟨by decide, ?_⟩, by decide, rfl⟩
  rw [Ne, Node.fingerprint_inj]
  decide

end Sample

end ScopedConfig
