import ScopedConfig.Proofs.Alike
import ScopedConfig.Proofs.Fingerprint

/-!
# Equal fingerprints

Every absent value has the same fingerprint, whatever its kind. Two nodes with one fingerprint have
the same content if what is absent in them is of one kind wherever content is compared part by part.
As items of a set they have the same key in any case.
-/

namespace ScopedConfig

namespace Node

open Fingerprint

/-! ## Kinds -/

mutual

/-- The parts that both nodes have are of one kind. Sets are not compared part by part. -/
def kindred : Node → Node → Bool
  | complex _ ps _, complex _ qs _ => kindredFields ps qs
  | list _ (some xs), list _ (some ys) => kindredItems xs ys
  | map _ (some es), map _ (some fs) => kindredFields es fs
  | a, b => a.kind == b.kind
termination_by structural a => a

def kindredFields : List (String × Node) → List (String × Node) → Bool
  | [], _ => true
  | (k, n) :: rest, others =>
    (match others.lookup k with
      | some m => n.kindred m
      | none => true) && kindredFields rest others
termination_by structural a => a

def kindredItems : List Node → List Node → Bool
  | m :: as, n :: bs => m.kindred n && kindredItems as bs
  | _, _ => true
termination_by structural a => a

end

theorem kindred_kind {a b : Node} (h : a.kindred b = true) : a.kind = b.kind := by
  rw [kindred.eq_def] at h
  split at h
  · rfl
  · rfl
  · rfl
  · exact eq_of_beq h

theorem kindredFields_iff {own others : List (String × Node)} :
    kindredFields own others = true ↔
      ∀ e ∈ own, ∀ m, others.lookup e.1 = some m → e.2.kindred m = true := by
  induction own with
  | nil => simp [kindredFields]
  | cons e rest ih =>
    obtain ⟨k, n⟩ := e
    rw [kindredFields, Bool.and_eq_true, ih]
    cases h : others.lookup k <;> simp [h]

/-! ## Parts

What a node looks like that has the fingerprint of a given one.
-/

theorem lead_of_fingerprint {a b : Node} (h : a.fingerprint = b.fingerprint) : a.lead = b.lead :=
  lead_eq (congrArg (· ++ []) (fingerprint_inj.1 h))

section
variable {b : Node} {info : Info}

theorem eq_of_fingerprint_text {text : String}
    (h : (simple info (some text)).fingerprint = b.fingerprint) :
    ∃ j, b = simple j (some text) := by
  obtain ⟨j, other, rfl⟩ | ⟨j, others, ds, rfl⟩ := quoted_of_lead (lead_of_fingerprint h).symm
  · obtain ⟨rfl, -⟩ := quoted_append_inj (congrArg (· ++ []) (fingerprint_inj.1 h))
    exact ⟨j, rfl⟩
  · obtain ⟨_, _, _, hcomplex, -⟩ := eq_of_fingerprint_complex h.symm
    cases hcomplex

theorem eq_of_fingerprint_list {own : List Node}
    (h : (list info (some own)).fingerprint = b.fingerprint) :
    ∃ j others, b = list j (some others) ∧ itemParts own = itemParts others := by
  have hlead : b.lead = '[' := (lead_of_fingerprint h).symm
  obtain ⟨j, others, rfl⟩ : ∃ j others, b = list j (some others) := by
    simpa [hlead] using b.eq_of_lead
  obtain ⟨hparts, -⟩ := enclosed_append_inj (by decide) (fun n _ => n.delimited)
    (fun _ => mem_itemParts.1) (fun _ => mem_itemParts.1)
    (congrArg (· ++ []) (fingerprint_inj.1 h))
  exact ⟨j, others, rfl, hparts⟩

theorem eq_of_fingerprint_set {own : List Node}
    (h : (set info (some own)).fingerprint = b.fingerprint) :
    ∃ j others, b = set j (some others) ∧
      sortParts (itemParts own) = sortParts (itemParts others) := by
  have hlead : b.lead = '<' := (lead_of_fingerprint h).symm
  obtain ⟨j, others, rfl⟩ : ∃ j others, b = set j (some others) := by
    simpa [hlead] using b.eq_of_lead
  obtain ⟨hparts, -⟩ := enclosed_append_inj (by decide) (fun n _ => n.delimited)
    (fun _ => mem_sortedParts.1) (fun _ => mem_sortedParts.1)
    (congrArg (· ++ []) (fingerprint_inj.1 h))
  exact ⟨j, others, rfl, hparts⟩

theorem eq_of_fingerprint_map {own : List (String × Node)}
    (h : (map info (some own)).fingerprint = b.fingerprint) :
    ∃ j others, b = map j (some others) ∧ fieldParts own = fieldParts others := by
  have hlead : b.lead = '(' := (lead_of_fingerprint h).symm
  obtain ⟨j, others, rfl⟩ : ∃ j others, b = map j (some others) := by
    simpa [hlead] using b.eq_of_lead
  have h := fingerprint_inj.1 h
  simp only [fingerprintChars, List.cons_append, List.cons.injEq, true_and] at h
  obtain ⟨hparts, -⟩ := fieldChars_append_inj (by decide) (fun e _ => e.2.delimited) h
  exact ⟨j, others, rfl, hparts⟩

theorem sameContent_of_absent {a : Node} (ha : a.lead = 'n') (hkind : a.kind = b.kind)
    (h : a.fingerprint = b.fingerprint) : a.sameContent b = true := by
  have hb : b.lead = 'n' := (lead_of_fingerprint h).symm.trans ha
  cases a with
  | complex => simp [lead] at ha
  | simple _ own | list _ own | set _ own | map _ own =>
    cases own with
    | some own => simp [lead] at ha
    | none =>
      cases b with
      | complex => simp [lead] at hb
      | simple _ other | list _ other | set _ other | map _ other =>
        cases other with
        | some other => simp [lead] at hb
        | none => simp [kind] at hkind <;> rfl

end

theorem text?_of_fingerprint {a b : Node} (ha : a.kind = .simple) (hb : b.kind = .simple)
    (h : a.fingerprint = b.fingerprint) : a.text? = b.text? := by
  cases a with
  | simple i t =>
    cases b with
    | simple j u =>
      cases t with
      | some t =>
        obtain ⟨_, hb⟩ := eq_of_fingerprint_text h
        cases hb
        rfl
      | none =>
        cases u with
        | none => rfl
        | some u =>
          obtain ⟨_, ha⟩ := eq_of_fingerprint_text h.symm
          cases ha
    | complex | list | set | map => cases hb
  | complex | list | set | map => cases ha

theorem fingerprint_of_text? {a b : Node} (ha : a.kind = .simple) (hb : b.kind = .simple)
    (h : a.text? = b.text?) : a.fingerprint = b.fingerprint := by
  cases a with
  | simple i t =>
    cases b with
    | simple j u =>
      obtain rfl : t = u := h
      cases t <;> rfl
    | complex | list | set | map => cases hb
  | complex | list | set | map => cases ha

theorem mem_of_fieldParts {own others : List (String × Node)} {e : String × Node}
    (h : fieldParts own = fieldParts others) (he : e ∈ own) :
    ∃ m, (e.1, m) ∈ others ∧ e.2.fingerprint = m.fingerprint := by
  have hpart : (e.1, e.2.fingerprintChars) ∈ fieldParts others := by
    rw [← h]
    exact List.mem_map_of_mem he
  obtain ⟨f, hf, hpart⟩ := List.mem_map.1 hpart
  obtain ⟨hname, hchars⟩ := Prod.mk.inj hpart
  exact ⟨f.2, by rw [← hname]; exact hf, fingerprint_inj.2 hchars.symm⟩

theorem lookup_of_fieldParts {own others : List (String × Node)} {name : String}
    (h : fieldParts own = fieldParts others) :
    (own.lookup name).map fingerprint = (others.lookup name).map fingerprint := by
  induction own generalizing others with
  | nil =>
    cases others with
    | nil => rfl
    | cons => simp [fieldParts] at h
  | cons e rest ih =>
    cases others with
    | nil => simp [fieldParts] at h
    | cons f others =>
      simp only [fieldParts, List.map_cons, List.cons.injEq, Prod.mk.injEq] at h
      rw [List.lookup_cons, List.lookup_cons, ← h.1.1]
      cases name == e.1 with
      | true => simp [fingerprint_inj.2 h.1.2]
      | false => exact ih h.2

theorem mem_of_sortParts {own others : List Node} {n : Node}
    (h : sortParts (itemParts own) = sortParts (itemParts others)) (hn : n ∈ own) :
    ∃ m ∈ others, m.fingerprint = n.fingerprint := by
  have hpart : n.fingerprintChars ∈ itemParts others := by
    rw [← mem_sortParts, ← h, mem_sortParts, mem_itemParts]
    exact ⟨n, hn, rfl⟩
  obtain ⟨m, hm, hchars⟩ := mem_itemParts.1 hpart
  exact ⟨m, hm, fingerprint_inj.2 hchars⟩

/-! ## Content -/

theorem sameFields_of_fingerprint {own others : List (String × Node)}
    (ih : ∀ e ∈ own, ∀ {m : Node}, m.isOrdered = true → e.2.fingerprint = m.fingerprint →
      e.2.kindred m = true → e.2.sameContent m = true)
    (hsorted : Keyed.Sorted others) (hothers : ∀ e ∈ others, e.2.isOrdered = true)
    (h : fieldParts own = fieldParts others) (hkinds : kindredFields own others = true) :
    own.length = others.length ∧ sameFields own others = true := by
  refine ⟨by simpa [fieldParts] using congrArg List.length h, sameFields_iff.2 fun e he => ?_⟩
  obtain ⟨m, hm, hfingerprint⟩ := mem_of_fieldParts h he
  have hlookup := Keyed.lookup_of_mem hsorted hm
  have hkind := kindredFields_iff.1 hkinds e he m hlookup
  exact ⟨m, hlookup, ih e he (hothers _ hm) hfingerprint hkind⟩

theorem sameItems_of_fingerprint {own others : List Node}
    (ih : ∀ n ∈ own, ∀ {m : Node}, m.isOrdered = true → n.fingerprint = m.fingerprint →
      n.kindred m = true → n.sameContent m = true)
    (hothers : ∀ n ∈ others, n.isOrdered = true) (h : itemParts own = itemParts others)
    (hkinds : kindredItems own others = true) : sameItems own others = true := by
  induction own generalizing others with
  | nil =>
    cases others with
    | nil => rfl
    | cons => simp [itemParts] at h
  | cons n rest ihr =>
    cases others with
    | nil => simp [itemParts] at h
    | cons m others =>
      simp only [itemParts, List.cons.injEq] at h
      simp only [kindredItems, Bool.and_eq_true] at hkinds
      rw [List.forall_mem_cons] at ih hothers
      rw [sameItems, ih.1 hothers.1 (fingerprint_inj.2 h.1) hkinds.1, Bool.true_and]
      exact ihr ih.2 hothers.2 h.2 hkinds.2

/-- Fingerprints confuse nothing but absent values. -/
theorem sameContent_of_fingerprint {a b : Node} (hb : b.isOrdered = true)
    (h : a.fingerprint = b.fingerprint) (hkinds : a.kindred b = true) :
    a.sameContent b = true := by
  induction a using tree_induction generalizing b with
  | absentList | absentSet | absentMap => exact sameContent_of_absent rfl (kindred_kind hkinds) h
  | simple i text =>
    cases text with
    | none => exact sameContent_of_absent rfl (kindred_kind hkinds) h
    | some text =>
      obtain ⟨j, rfl⟩ := eq_of_fingerprint_text h
      simp [sameContent]
  | complex i own declared ih =>
    obtain ⟨j, others, ds, rfl, -, hfields⟩ := eq_of_fingerprint_complex h
    obtain ⟨hsorted, hothers⟩ := complex_ordered_iff.1 hb
    rw [kindred] at hkinds
    obtain ⟨hlength, hsame⟩ := sameFields_of_fingerprint ih hsorted hothers hfields hkinds
    simp [sameContent, hlength, hsame]
  | list i own ih =>
    obtain ⟨j, others, rfl, hitems⟩ := eq_of_fingerprint_list h
    rw [kindred] at hkinds
    rw [sameContent]
    exact sameItems_of_fingerprint ih (itemsOrdered_iff.1 hb) hitems hkinds
  | set i own ih =>
    obtain ⟨j, others, rfl, hitems⟩ := eq_of_fingerprint_set h
    simp [sameContent, hitems]
  | map i own ih =>
    obtain ⟨j, others, rfl, hentries⟩ := eq_of_fingerprint_map h
    obtain ⟨hsorted, hothers⟩ := map_ordered_iff.1 hb
    rw [kindred] at hkinds
    obtain ⟨hlength, hsame⟩ := sameFields_of_fingerprint ih hsorted hothers hentries hkinds
    simp [sameContent, hlength, hsame]

-- An absent text and an absent list are confused.
example (i : Info) : (simple i none).fingerprint = (list i none).fingerprint ∧
    (simple i none).sameContent (list i none) = false := ⟨rfl, rfl⟩

end Node

/-! ## Keys -/

namespace Stamp

open Schema Node Merge

variable {s : Schema} {role : Role}

theorem keyOf_of_kind {n : Node} (h : n.kind ≠ .complex) : keyOf s role n = n.fingerprint := by
  have hnone (name : String) : n.property? name = none := by
    cases n with
    | complex => exact absurd rfl h
    | simple | list | set | map => rfl
  cases role with
  | unknown | type => rfl
  | property p =>
    cases hkey : s.itemKey p p.name n with
    | error e => simp [keyOf, hkey]
    | ok key =>
      obtain ⟨identity, -, hidentity⟩ := Option.bind_eq_some_iff.1 (itemKey_eq_ok.1 hkey)
      cases identity with
      | property name => simp [Identity.key?, hnone] at hidentity
      | content => simpa [keyOf, hkey, Identity.key?] using hidentity.symm

theorem keyOf_congr {a b : Node} (h : a.fingerprint = b.fingerprint) :
    keyOf s role a = keyOf s role b := by
  by_cases ha : a.kind = .complex
  case neg =>
    have hb : b.kind ≠ .complex := by
      intro hb
      cases b with
      | complex =>
        obtain ⟨j, others, ds, rfl, -⟩ := eq_of_fingerprint_complex h.symm
        exact ha rfl
      | simple | list | set | map => cases hb
    rw [keyOf_of_kind ha, keyOf_of_kind hb, h]
  cases a with
  | simple | list | set | map => cases ha
  | complex info own declared =>
    obtain ⟨j, others, ds, rfl, htype, hfields⟩ := eq_of_fingerprint_complex h
    refine keyOf_of_itemKey (fun p key => ?_) h
    have hidentity : identityOf? s p (.complex info own declared) =
        identityOf? s p (.complex j others ds) := by
      simp [identityOf?, Node.typeName, Node.info, htype]
    rw [itemKey_eq_ok, itemKey_eq_ok, hidentity]
    cases identityOf? s p (.complex j others ds) with
    | none => rfl
    | some identity =>
      cases identity with
      | content => simp [Identity.key?, h]
      | property name =>
        simp [Identity.key?, Node.property?, properties?, lookup_of_fieldParts hfields]

theorem withKey_of_mem {items : Option (List Node)} {a : Node} (h : a ∈ items.getD []) :
    ∃ m ∈ items.getD [], withKey s role items (keyOf s role a) = some m ∧
      keyOf s role m = keyOf s role a := by
  cases hm : withKey s role items (keyOf s role a) with
  | none => simpa using List.find?_eq_none.1 hm a h
  | some m =>
    exact ⟨m, List.mem_of_find?_eq_some hm, rfl, by simpa using List.find?_some hm⟩

end Stamp

end ScopedConfig
