import ScopedConfig.Proofs.Outcome

/-!
# Nodes that conform to a type

What a schema asks of a node: kinds, item kinds, the types of complex values that are not
polymorphic, and identity properties of set items. A merge of two nodes that conform to a type
conforms to it.
-/

namespace ScopedConfig

namespace Schema

/-! ## Conformity -/

/-- A set item has the property that tells the items of its type apart, if the type names one. -/
def isKeyed (s : Schema) (p : Property) (item : Node) : Bool :=
  match (s.recordFor p item).bind Record.identity with
  | none => true
  | some identity => (item.property? identity).isSome

mutual

/-- The node has this kind, and below it is what the property declares. Nothing is asked of list
items and of what polymorphic values hold. -/
def fits (s : Schema) (p : Property) (kind : Kind) : Node → Bool
  | .simple .. => kind == .simple
  | .complex _ own _ =>
    kind == .complex && (p.polymorphic ||
      match s.find? p.typeName with
      | none => false
      | some type => fieldsFit s type own)
  | .list .. => kind == .list
  | .set _ none => kind == .set
  | .set _ (some own) => kind == .set && itemsFit s p own
  | .map _ none => kind == .map
  | .map _ (some own) => kind == .map && entriesFit s p own
termination_by structural n => n

/-- Nothing is asked of properties that the type does not declare. -/
def fieldsFit (s : Schema) (type : Record) : List (String × Node) → Bool
  | [] => true
  | (name, n) :: rest =>
    (match type.find? name with
      | none => true
      | some p => fits s p p.kind n) && fieldsFit s type rest
termination_by structural own => own

def itemsFit (s : Schema) (p : Property) : List Node → Bool
  | [] => true
  | n :: rest => fits s p p.itemKind.kind n && isKeyed s p n && itemsFit s p rest
termination_by structural own => own

def entriesFit (s : Schema) (p : Property) : List (String × Node) → Bool
  | [] => true
  | (_, n) :: rest => fits s p p.itemKind.kind n && entriesFit s p rest
termination_by structural own => own

end

def conforms (s : Schema) (type : Record) : Node → Bool
  | .complex _ own _ => s.fieldsFit type own
  | _ => false

variable {s : Schema} {p : Property} {type : Record} {kind : Kind}

theorem fieldsFit_iff {own : List (String × Node)} :
    s.fieldsFit type own = true ↔
      ∀ e ∈ own, ∀ p, type.find? e.1 = some p → s.fits p p.kind e.2 = true := by
  induction own with
  | nil => simp [fieldsFit]
  | cons e rest ih =>
    obtain ⟨name, n⟩ := e
    rw [fieldsFit, Bool.and_eq_true, ih, List.forall_mem_cons]
    cases type.find? name <;> simp

theorem itemsFit_iff {own : List Node} :
    s.itemsFit p own = true ↔
      ∀ n ∈ own, s.fits p p.itemKind.kind n = true ∧ s.isKeyed p n = true := by
  induction own with
  | nil => simp [itemsFit]
  | cons n rest ih => rw [itemsFit, Bool.and_eq_true, Bool.and_eq_true, ih, List.forall_mem_cons]

theorem entriesFit_iff {own : List (String × Node)} :
    s.entriesFit p own = true ↔ ∀ e ∈ own, s.fits p p.itemKind.kind e.2 = true := by
  induction own with
  | nil => simp [entriesFit]
  | cons e rest ih => rw [entriesFit, Bool.and_eq_true, ih, List.forall_mem_cons]

theorem complex_fits_iff {info : Info} {own : List (String × Node)} {declared : List String} :
    s.fits p kind (.complex info own declared) = true ↔
      kind = .complex ∧ (p.polymorphic = false →
        ∃ type, s.find? p.typeName = some type ∧ s.fieldsFit type own = true) := by
  rw [fits, Bool.and_eq_true, beq_iff_eq]
  cases p.polymorphic <;> cases s.find? p.typeName <;> simp

theorem set_fits_iff {info : Info} {own : List Node} :
    s.fits p kind (.set info (some own)) = true ↔ kind = .set ∧ s.itemsFit p own = true := by
  rw [fits, Bool.and_eq_true, beq_iff_eq]

theorem map_fits_iff {info : Info} {own : List (String × Node)} :
    s.fits p kind (.map info (some own)) = true ↔ kind = .map ∧ s.entriesFit p own = true := by
  rw [fits, Bool.and_eq_true, beq_iff_eq]

theorem kind_of_fits {n : Node} (h : s.fits p kind n = true) : n.kind = kind := by
  cases n with
  | simple | complex => simp_all [fits, Node.kind]
  | list _ own | set _ own | map _ own => cases own <;> simp_all [fits, Node.kind]

theorem kind_of_conforms {n : Node} (h : s.conforms type n = true) : n.kind = .complex := by
  cases n with
  | complex => rfl
  | simple | list | set | map => cases h

/-! ## Parts -/

theorem properties_conform {n : Node} (h : s.conforms type n = true) :
    s.fieldsFit type (n.properties?.getD []) = true := by
  cases n with
  | complex => exact h
  | simple | list | set | map => cases h

theorem properties_fit {n : Node} (h : s.fits p kind n = true) (hmono : p.polymorphic = false)
    (htype : s.find? p.typeName = some type) :
    s.fieldsFit type (n.properties?.getD []) = true := by
  cases n with
  | simple | list | set | map => rfl
  | complex info own declared =>
    obtain ⟨type', htype', hown⟩ := (complex_fits_iff.1 h).2 hmono
    rw [htype] at htype'
    cases htype'
    exact hown

theorem items_fit {n : Node} (h : s.fits p .set n = true) :
    s.itemsFit p (n.items?.getD []) = true := by
  cases n with
  | simple | complex | map => rfl
  | list _ own => cases own <;> simp [fits] at h
  | set _ own =>
    cases own with
    | none => rfl
    | some own => exact (set_fits_iff.1 h).2

theorem entries_fit {n : Node} (h : s.fits p .map n = true) :
    s.entriesFit p (n.entries?.getD []) = true := by
  cases n with
  | simple | complex | list | set => rfl
  | map _ own =>
    cases own with
    | none => rfl
    | some own => exact (map_fits_iff.1 h).2

theorem fieldsFit_fillFrom {extra own : List (String × Node)}
    (hextra : s.fieldsFit type extra = true) (hown : s.fieldsFit type own = true) :
    s.fieldsFit type (Keyed.fillFrom extra own) = true := by
  rw [fieldsFit_iff] at *
  intro e he
  rcases Keyed.mem_fillFrom he with he | he
  · exact hextra e he
  · exact hown e he

theorem isKeyed_mono {info : Info} {own merged : List (String × Node)} {declared : List String}
    (h : s.isKeyed p (.complex info own declared) = true)
    (hnames : ∀ name ∈ own.map Prod.fst, name ∈ merged.map Prod.fst) :
    s.isKeyed p (.complex info merged declared) = true := by
  unfold isKeyed at *
  have hrecord : s.recordFor p (.complex info merged declared) =
      s.recordFor p (.complex info own declared) := rfl
  rw [hrecord]
  split
  case h_1 => rfl
  case h_2 identity hidentity =>
    rw [hidentity] at h
    exact Keyed.lookup_isSome_iff.2 (hnames _ (Keyed.lookup_isSome_iff.1 h))

end Schema

/-! ## Merges -/

namespace Merge

open Schema

variable {rules : Rules} {p : Property} {type : Record}

/-- If the values of a property fit it, so does their merge. -/
def KeepsFit (s : Schema) (p : Property) (parent child node : Node) : Prop :=
  s.fits p p.kind parent = true → s.fits p p.kind child = true → s.fits p p.kind node = true

theorem Fields.fit {inherited own merged : List (String × Node)}
    (h : Fields (KeepsFit rules.schema) type inherited own merged)
    (hinherited : rules.schema.fieldsFit type inherited = true)
    (hown : rules.schema.fieldsFit type own = true) :
    rules.schema.fieldsFit type merged = true := by
  rw [fieldsFit_iff] at *
  induction h with
  | nil => exact hown
  | taken _ _ ih =>
    rw [List.forall_mem_cons] at hown ⊢
    exact ⟨hown.1, ih hown.2⟩
  | @paired name p parent child node own merged hparent hfind h _ ih =>
    rw [List.forall_mem_cons] at hown ⊢
    refine ⟨fun q hq => ?_, ih hown.2⟩
    obtain rfl : p = q := Option.some.inj (hfind.symm.trans hq)
    exact h (hinherited (name, parent) (Keyed.mem_of_lookup hparent) p hfind) (hown.1 p hfind)

theorem names_joined {inherited own merged : List (String × Node)}
    (hnames : merged.map Prod.fst = own.map Prod.fst) :
    ∀ name ∈ own.map Prod.fst, name ∈ (Keyed.fillFrom inherited merged).map Prod.fst := by
  intro name hname
  rw [← hnames, ← Keyed.lookup_isSome_iff] at hname
  obtain ⟨n, hn⟩ := Option.isSome_iff_exists.1 hname
  rw [← Keyed.lookup_isSome_iff, Keyed.lookup_fillFrom_of_some inherited hn]
  rfl

theorem joined_fits {kind : Kind} {parent : Node} {info : Info} {own merged : List (String × Node)}
    {declared : List String} (hmono : p.polymorphic = false)
    (htype : rules.schema.find? p.typeName = some type)
    (hmerged : Fields (KeepsFit rules.schema) type (parent.properties?.getD []) own merged)
    (hparent : rules.schema.fits p kind parent = true)
    (hchild : rules.schema.fits p kind (.complex info own declared) = true) :
    rules.schema.fits p kind (joined info declared parent merged) = true := by
  have hinherited := properties_fit hparent hmono htype
  have hown := properties_fit hchild hmono htype
  refine complex_fits_iff.2 ⟨(complex_fits_iff.1 hchild).1, fun _ => ⟨type, htype, ?_⟩⟩
  exact fieldsFit_fillFrom hinherited (hmerged.fit hinherited hown)

theorem backfill_fits {kind : Kind} {parent child : Node}
    (hparent : rules.schema.fits p kind parent = true)
    (hchild : rules.schema.fits p kind child = true) :
    rules.schema.fits p kind (backfill parent child) = true := by
  unfold backfill
  split
  · obtain ⟨hkind, hown⟩ := complex_fits_iff.1 hchild
    refine complex_fits_iff.2 ⟨hkind, fun hmono => ?_⟩
    obtain ⟨type, htype, hown⟩ := hown hmono
    exact ⟨type, htype, fieldsFit_fillFrom (properties_fit hparent hmono htype) hown⟩
  · exact hchild

theorem ItemOutcome.fits {above : Option Node} {child node : Node}
    (h : ItemOutcome rules (KeepsFit rules.schema) p above child node)
    (habove : ∀ a, above = some a → rules.schema.fits p p.itemKind.kind a = true)
    (hchild : rules.schema.fits p p.itemKind.kind child = true) :
    rules.schema.fits p p.itemKind.kind node = true := by
  cases h with
  | added => exact hchild
  | parent h => exact habove _ h
  | backfilled h => exact backfill_fits (habove _ h) hchild
  | joined h hc hmono htype hmerged =>
    subst hc
    exact joined_fits hmono htype hmerged (habove _ h) hchild

theorem ItemOutcome.isKeyed {R : Property → Node → Node → Node → Prop} {above : Option Node}
    {child node : Node} (h : ItemOutcome rules R p above child node)
    (habove : ∀ a, above = some a → rules.schema.isKeyed p a = true)
    (hchild : rules.schema.isKeyed p child = true) : rules.schema.isKeyed p node = true := by
  cases h with
  | added => exact hchild
  | parent h => exact habove _ h
  | backfilled h =>
    unfold backfill
    split
    · exact isKeyed_mono hchild (names_joined rfl)
    · exact hchild
  | joined h hc hmono htype hmerged =>
    subst hc
    exact isKeyed_mono hchild (names_joined hmerged.names)

theorem keepsFit_step {parent child node : Node}
    (h : Outcome rules (KeepsFit rules.schema) p parent child node) :
    KeepsFit rules.schema p parent child node := by
  intro hparent hchild
  cases h with
  | parent => exact hparent
  | child => exact hchild
  | text => simpa [fits] using hchild
  | joined hmono htype hmerged => exact joined_fits hmono htype hmerged hparent hchild
  | set hmerged =>
    obtain ⟨hkind, hown⟩ := set_fits_iff.1 hchild
    rw [hkind] at hparent
    have hinherited := itemsFit_iff.1 (items_fit hparent)
    have hown := itemsFit_iff.1 hown
    refine set_fits_iff.2 ⟨hkind, itemsFit_iff.2 fun n hn => ?_⟩
    obtain hn | ⟨child, hc, above, habove, hout⟩ := hmerged n hn
    · exact hinherited n hn
    · exact ⟨hout.fits (fun a ha => (hinherited a (habove a ha)).1) (hown child hc).1,
        hout.isKeyed (fun a ha => (hinherited a (habove a ha)).2) (hown child hc).2⟩
  | map hkept hkeys hmerged =>
    obtain ⟨hkind, hown⟩ := map_fits_iff.1 hchild
    rw [hkind] at hparent
    have hinherited := entriesFit_iff.1 (entries_fit hparent)
    have hown := entriesFit_iff.1 hown
    refine map_fits_iff.2 ⟨hkind, entriesFit_iff.2 fun e he => ?_⟩
    rcases Keyed.mem_fillFrom he with he | he
    · exact hinherited e (hkept e he)
    · obtain ⟨child, hc, hout⟩ := hmerged e he
      exact hout.fits (fun a ha => hinherited _ (Keyed.mem_of_lookup ha)) (hown _ hc)

theorem complex_conforms {place : String} {parent child node : Node} {stale : Totals}
    (hparent : rules.schema.conforms type parent = true)
    (hchild : rules.schema.conforms type child = true)
    (h : complex rules place type parent child = .ok (node, stale)) :
    rules.schema.conforms type node = true := by
  obtain ⟨info, own, declared, merged, rfl, hmerged, rfl⟩ :=
    complex_outcome (fun _ _ => keepsFit_step) h
  have hinherited := properties_conform hparent
  exact fieldsFit_fillFrom hinherited (hmerged.fit hinherited hchild)

end Merge

end ScopedConfig
