import ScopedConfig.Proofs.Content

/-!
# Reading fingerprints back

Where a fingerprint ends can be told from the fingerprint itself: a text that goes on after it, but
not with an opening brace, can be split in one way only. So two fingerprints are equal only if their
parts are.
-/

namespace ScopedConfig

namespace Fingerprint

/-! ## Quoted texts -/

theorem escape_append_inj {l m r r' : List Char}
    (h : l.flatMap escape ++ '"' :: r = m.flatMap escape ++ '"' :: r') : l = m ∧ r = r' := by
  induction l generalizing m with
  | nil =>
    cases m with
    | nil => simpa using h
    | cons d m =>
      rw [List.flatMap_cons, escape] at h
      split at h
      case isTrue => simp at h
      case isFalse hd =>
        simp only [List.flatMap_nil, List.nil_append, List.cons_append, List.cons.injEq] at h
        exact absurd (.inl h.1.symm) hd
  | cons c l ih =>
    cases m with
    | nil =>
      rw [List.flatMap_cons, escape] at h
      split at h
      case isTrue => simp at h
      case isFalse hc =>
        simp only [List.flatMap_nil, List.nil_append, List.cons_append, List.cons.injEq] at h
        exact absurd (.inl h.1) hc
    | cons d m =>
      rw [List.flatMap_cons, List.flatMap_cons, escape, escape] at h
      split at h <;> split at h
      case isTrue.isTrue =>
        simp only [List.cons_append, List.nil_append, List.cons.injEq, true_and] at h
        obtain ⟨rfl, rfl⟩ := ih h.2
        exact ⟨by rw [h.1], rfl⟩
      case isTrue.isFalse hd =>
        simp only [List.cons_append, List.nil_append, List.cons.injEq] at h
        exact absurd (.inr h.1.symm) hd
      case isFalse.isTrue hc _ =>
        simp only [List.cons_append, List.nil_append, List.cons.injEq] at h
        exact absurd (.inr h.1) hc
      case isFalse.isFalse =>
        simp only [List.cons_append, List.nil_append, List.cons.injEq] at h
        obtain ⟨rfl, rfl⟩ := ih h.2
        exact ⟨by rw [h.1], rfl⟩

theorem quoted_append_inj {s t : String} {r r' : List Char}
    (h : quoted s ++ r = quoted t ++ r') : s = t ∧ r = r' := by
  simp only [quoted, List.cons_append, List.append_assoc, List.nil_append, List.cons.injEq,
    true_and] at h
  obtain ⟨hs, hr⟩ := escape_append_inj h
  exact ⟨String.toList_inj.1 hs, hr⟩

/-- What stands after a part when these parts are still to come. -/
def following (closing : Char) (r : List Char) : List (List Char) → List Char
  | [] => closing :: r
  | p :: rest => ',' :: p ++ following closing r rest

theorem intercalate_append (closing : Char) (r p : List Char) (rest : List (List Char)) :
    [','].intercalate (p :: rest) ++ closing :: r = p ++ following closing r rest := by
  induction rest generalizing p with
  | nil => simp [following]
  | cons q rest ih => simp [List.intercalate_cons_cons, following, ih]

theorem mem_insertPart {part p : List Char} {parts : List (List Char)} :
    p ∈ insertPart part parts ↔ p = part ∨ p ∈ parts := by
  induction parts with
  | nil => simp [insertPart]
  | cons q rest ih =>
    rw [insertPart]
    split
    · simp
    · simp only [List.mem_cons, ih]
      tauto

theorem mem_sortParts {p : List Char} {parts : List (List Char)} :
    p ∈ sortParts parts ↔ p ∈ parts := by
  induction parts with
  | nil => simp [sortParts]
  | cons q rest ih => rw [sortParts, mem_insertPart, ih, List.mem_cons]

end Fingerprint

namespace Node

open Fingerprint

theorem mem_itemParts {p : List Char} {own : List Node} :
    p ∈ itemParts own ↔ ∃ n ∈ own, n.fingerprintChars = p := by
  induction own with
  | nil => simp [itemParts]
  | cons n rest ih => simp [itemParts, ih, eq_comm]

theorem mem_sortedParts {p : List Char} {own : List Node} :
    p ∈ sortParts (itemParts own) ↔ ∃ n ∈ own, n.fingerprintChars = p := by
  rw [mem_sortParts, mem_itemParts]

/-! ## Where a fingerprint ends -/

/-- The character with which the fingerprint starts. -/
def lead : Node → Char
  | simple _ (some _) | complex .. => '"'
  | list _ (some _) => '['
  | set _ (some _) => '<'
  | map _ (some _) => '('
  | simple _ none | list _ none | set _ none | map _ none => 'n'

theorem fingerprintChars_lead (n : Node) : ∃ rest, n.fingerprintChars = n.lead :: rest := by
  cases n with
  | simple _ own | list _ own | set _ own | map _ own => cases own <;> exact ⟨_, rfl⟩
  | complex => exact ⟨_, rfl⟩

/-- What follows does not make a text into a complex node. -/
def Ends (r : List Char) : Prop := r.head? ≠ some '\x7b'

/-- The end of the fingerprint can be found in a longer text. -/
structure Delimited (a : Node) : Prop where
  split : ∀ {b : Node} {r r' : List Char}, Ends r → Ends r' →
    a.fingerprintChars ++ r = b.fingerprintChars ++ r' →
    a.fingerprintChars = b.fingerprintChars ∧ r = r'

/-- The parts of a fingerprint that names a node for each key. -/
def fieldParts (own : List (String × Node)) : List (String × List Char) :=
  own.map fun e => (e.1, e.2.fingerprintChars)

theorem fieldChars_congr {mark : Char} {own others : List (String × Node)}
    (h : fieldParts own = fieldParts others) : fieldChars mark own = fieldChars mark others := by
  induction own generalizing others with
  | nil =>
    cases others with
    | nil => rfl
    | cons => simp [fieldParts] at h
  | cons e rest ih =>
    cases others with
    | nil => simp [fieldParts] at h
    | cons f others =>
      simp only [fieldParts, List.map_cons, List.cons.injEq, Prod.mk.injEq] at h
      simp [fieldChars, h.1.1, h.1.2, ih h.2]

theorem names_of_fieldParts {own others : List (String × Node)}
    (h : fieldParts own = fieldParts others) : own.map Prod.fst = others.map Prod.fst := by
  have hnames := congrArg (List.map Prod.fst) h
  simpa [fieldParts, Function.comp_def] using hnames

theorem fieldChars_append_inj {mark closing : Char} (hclosing : closing ≠ '"')
    {own others : List (String × Node)} (hown : ∀ e ∈ own, e.2.Delimited) {r r' : List Char}
    (h : fieldChars mark own ++ closing :: r = fieldChars mark others ++ closing :: r') :
    fieldParts own = fieldParts others ∧ r = r' := by
  induction own generalizing others with
  | nil =>
    cases others with
    | nil => simpa [fieldChars, fieldParts] using h
    | cons f others =>
      simp only [fieldChars, quoted, List.nil_append, List.cons_append, List.cons.injEq] at h
      exact absurd h.1 hclosing
  | cons e rest ih =>
    cases others with
    | nil =>
      simp only [fieldChars, quoted, List.nil_append, List.cons_append, List.cons.injEq] at h
      exact absurd h.1.symm hclosing
    | cons f others =>
      simp only [fieldChars, List.append_assoc, List.cons_append] at h
      obtain ⟨hkey, h⟩ := quoted_append_inj h
      simp only [List.cons.injEq, true_and] at h
      obtain ⟨hvalue, h⟩ := (hown e List.mem_cons_self).split (by simp [Ends])
        (by simp [Ends]) h
      simp only [List.cons.injEq, true_and] at h
      obtain ⟨hrest, rfl⟩ := ih (fun e he => hown e (List.mem_cons_of_mem _ he)) h
      exact ⟨by simp only [fieldParts, List.map_cons, hkey, hvalue] at hrest ⊢; rw [hrest], rfl⟩

section
variable {closing : Char} (hcomma : closing ≠ ',') (hbrace : closing ≠ '\x7b')
include hbrace

theorem ends_following (r : List Char) (parts : List (List Char)) :
    Ends (following closing r parts) := by
  cases parts <;> simp [following, Ends, hbrace]

include hcomma

theorem following_inj {ps qs : List (List Char)}
    (hps : ∀ p ∈ ps, ∃ n : Node, n.Delimited ∧ n.fingerprintChars = p)
    (hqs : ∀ q ∈ qs, ∃ n : Node, n.fingerprintChars = q) {r r' : List Char}
    (h : following closing r ps = following closing r' qs) : ps = qs ∧ r = r' := by
  induction ps generalizing qs with
  | nil =>
    cases qs with
    | nil => simpa [following] using h
    | cons q qs => exact absurd (List.cons.inj h).1 hcomma
  | cons p ps ih =>
    cases qs with
    | nil => exact absurd (List.cons.inj h).1.symm hcomma
    | cons q qs =>
      obtain ⟨n, hn, rfl⟩ := hps p List.mem_cons_self
      obtain ⟨m, rfl⟩ := hqs q List.mem_cons_self
      obtain ⟨hp, h⟩ := hn.split (ends_following hbrace r ps) (ends_following hbrace r' qs)
        (List.cons.inj h).2
      obtain ⟨rfl, rfl⟩ := ih (fun p hp => hps p (List.mem_cons_of_mem _ hp))
        (fun q hq => hqs q (List.mem_cons_of_mem _ hq)) h
      exact ⟨by rw [hp], rfl⟩

theorem parts_append_inj (hclosing : ∀ n : Node, n.lead ≠ closing) {ps qs : List (List Char)}
    (hps : ∀ p ∈ ps, ∃ n : Node, n.Delimited ∧ n.fingerprintChars = p)
    (hqs : ∀ q ∈ qs, ∃ n : Node, n.fingerprintChars = q) {r r' : List Char}
    (h : [','].intercalate ps ++ closing :: r = [','].intercalate qs ++ closing :: r') :
    ps = qs ∧ r = r' := by
  have first (n : Node) (r s : List Char) : closing :: r ≠ n.fingerprintChars ++ s := by
    obtain ⟨tail, htail⟩ := n.fingerprintChars_lead
    rw [htail]
    exact fun heq => hclosing n (List.cons.inj heq).1.symm
  cases ps with
  | nil =>
    cases qs with
    | nil => simpa using h
    | cons q qs =>
      obtain ⟨m, rfl⟩ := hqs q List.mem_cons_self
      rw [intercalate_append] at h
      exact absurd h (first m r _)
  | cons p ps =>
    obtain ⟨n, hn, rfl⟩ := hps p List.mem_cons_self
    rw [intercalate_append] at h
    cases qs with
    | nil => exact absurd h.symm (first n r' _)
    | cons q qs =>
      obtain ⟨m, rfl⟩ := hqs q List.mem_cons_self
      rw [intercalate_append] at h
      obtain ⟨hp, h⟩ := hn.split (ends_following hbrace r ps) (ends_following hbrace r' qs) h
      obtain ⟨rfl, rfl⟩ := following_inj hcomma hbrace
        (fun p hp => hps p (List.mem_cons_of_mem _ hp))
        (fun q hq => hqs q (List.mem_cons_of_mem _ hq)) h
      exact ⟨by rw [hp], rfl⟩

end

/-! ## All nodes -/

theorem lead_cases (n : Node) : n.lead ∈ ['"', 'n', '[', '<', '('] := by
  cases n with
  | simple _ own | list _ own | set _ own | map _ own => cases own <;> simp [lead]
  | complex => simp [lead]

theorem lead_ne {closing : Char} (h : closing ∉ ['"', 'n', '[', '<', '(']) (n : Node) :
    n.lead ≠ closing := by
  rintro rfl
  exact h n.lead_cases

theorem lead_eq {a b : Node} {r r' : List Char}
    (h : a.fingerprintChars ++ r = b.fingerprintChars ++ r') : a.lead = b.lead := by
  obtain ⟨s, hs⟩ := a.fingerprintChars_lead
  obtain ⟨t, ht⟩ := b.fingerprintChars_lead
  rw [hs, ht] at h
  exact (List.cons.inj h).1

theorem eq_of_lead (b : Node) :
    b.lead = 'n' ∧ b.fingerprintChars = absent ∨
      b.lead = '"' ∧ ((∃ info text, b = simple info (some text)) ∨
        ∃ info own declared, b = complex info own declared) ∨
      b.lead = '[' ∧ (∃ info own, b = list info (some own)) ∨
      b.lead = '<' ∧ (∃ info own, b = set info (some own)) ∨
      b.lead = '(' ∧ ∃ info own, b = map info (some own) := by
  cases b with
  | simple _ own | list _ own | set _ own | map _ own =>
    cases own <;> simp [lead, fingerprintChars]
  | complex => simp [lead]

theorem quoted_of_lead {b : Node} (h : b.lead = '"') :
    (∃ info text, b = simple info (some text)) ∨
      ∃ info own declared, b = complex info own declared := by
  simpa [h] using b.eq_of_lead

theorem delimited_absent {a : Node} (hlead : a.lead = 'n') : a.Delimited := by
  refine ⟨fun _ _ h => ?_⟩
  have habsent {c : Node} (hc : c.lead = 'n') : c.fingerprintChars = absent := by
    simpa [hc] using c.eq_of_lead
  have hb := habsent ((lead_eq h).symm.trans hlead)
  rw [habsent hlead, hb] at h ⊢
  exact ⟨rfl, List.append_cancel_left h⟩

theorem enclosed_append_inj {opening closing : Char}
    (hclosing : closing ∉ [',', '\x7b', '"', 'n', '[', '<', '(']) {own others : List Node}
    (hown : ∀ n ∈ own, n.Delimited) {ps qs : List (List Char)}
    (hps : ∀ p ∈ ps, ∃ n ∈ own, n.fingerprintChars = p)
    (hqs : ∀ q ∈ qs, ∃ n ∈ others, n.fingerprintChars = q) {r r' : List Char}
    (h : enclosed opening closing ps ++ r = enclosed opening closing qs ++ r') :
    ps = qs ∧ r = r' := by
  rw [List.mem_cons, List.mem_cons, not_or, not_or] at hclosing
  obtain ⟨hcomma, hbrace, hlead⟩ := hclosing
  simp only [enclosed, List.cons_append, List.append_assoc, List.nil_append, List.cons.injEq,
    true_and] at h
  refine parts_append_inj hcomma hbrace (lead_ne hlead) (fun p hp => ?_) (fun q hq => ?_) h
  · obtain ⟨n, hn, rfl⟩ := hps p hp
    exact ⟨n, hown n hn, rfl⟩
  · obtain ⟨n, -, rfl⟩ := hqs q hq
    exact ⟨n, rfl⟩

theorem delimited (a : Node) : a.Delimited := by
  induction a using tree_induction with
  | absentList | absentSet | absentMap => exact delimited_absent rfl
  | simple info text =>
    cases text with
    | none => exact delimited_absent rfl
    | some text =>
      refine ⟨fun hr hr' h => ?_⟩
      obtain ⟨j, other, rfl⟩ | ⟨j, others, ds, rfl⟩ := quoted_of_lead (lead_eq h).symm
      · obtain ⟨rfl, rfl⟩ := quoted_append_inj h
        exact ⟨rfl, rfl⟩
      · -- After the type name comes a brace, which does not end a text.
        simp only [fingerprintChars, List.append_assoc, List.cons_append] at h
        obtain ⟨-, rfl⟩ := quoted_append_inj h
        exact absurd rfl hr
  | complex info own declared ih =>
    refine ⟨fun hr hr' h => ?_⟩
    obtain ⟨j, other, rfl⟩ | ⟨j, others, ds, rfl⟩ := quoted_of_lead (lead_eq h).symm
    · simp only [fingerprintChars, List.append_assoc, List.cons_append] at h
      obtain ⟨-, rfl⟩ := quoted_append_inj h
      exact absurd rfl hr'
    · simp only [fingerprintChars, List.append_assoc, List.cons_append, List.nil_append] at h
      obtain ⟨htype, h⟩ := quoted_append_inj h
      obtain ⟨hfields, rfl⟩ := fieldChars_append_inj (by decide) ih (List.cons.inj h).2
      exact ⟨by simp only [fingerprintChars, htype, fieldChars_congr hfields], rfl⟩
  | list info own ih =>
    refine ⟨fun {b _ _} _ _ h => ?_⟩
    have hlead : b.lead = '[' := (lead_eq h).symm
    obtain ⟨j, others, rfl⟩ : ∃ j others, b = list j (some others) := by
      simpa [hlead] using b.eq_of_lead
    obtain ⟨hparts, rfl⟩ := enclosed_append_inj (by decide) ih (fun _ => mem_itemParts.1)
      (fun _ => mem_itemParts.1) h
    exact ⟨by rw [fingerprintChars, hparts, fingerprintChars], rfl⟩
  | set info own ih =>
    refine ⟨fun {b _ _} _ _ h => ?_⟩
    have hlead : b.lead = '<' := (lead_eq h).symm
    obtain ⟨j, others, rfl⟩ : ∃ j others, b = set j (some others) := by
      simpa [hlead] using b.eq_of_lead
    obtain ⟨hparts, rfl⟩ := enclosed_append_inj (by decide) ih (fun _ => mem_sortedParts.1)
      (fun _ => mem_sortedParts.1) h
    exact ⟨by rw [fingerprintChars, hparts, fingerprintChars], rfl⟩
  | map info own ih =>
    refine ⟨fun {b _ _} _ _ h => ?_⟩
    have hlead : b.lead = '(' := (lead_eq h).symm
    obtain ⟨j, others, rfl⟩ : ∃ j others, b = map j (some others) := by
      simpa [hlead] using b.eq_of_lead
    simp only [fingerprintChars, List.cons_append, List.append_assoc, List.nil_append,
      List.cons.injEq, true_and] at h ⊢
    obtain ⟨hfields, rfl⟩ := fieldChars_append_inj (by decide) ih h
    exact ⟨by rw [fieldChars_congr hfields], rfl⟩

/-! ## Equal fingerprints -/

theorem fingerprint_inj {a b : Node} :
    a.fingerprint = b.fingerprint ↔ a.fingerprintChars = b.fingerprintChars := by
  rw [fingerprint, fingerprint, String.ofList_inj]

theorem eq_of_fingerprint_complex {info : Info} {own : List (String × Node)}
    {declared : List String} {b : Node}
    (h : (complex info own declared).fingerprint = b.fingerprint) :
    ∃ j others ds, b = complex j others ds ∧ info.typeName = j.typeName ∧
      fieldParts own = fieldParts others := by
  have h := congrArg (· ++ [';']) (fingerprint_inj.1 h)
  obtain ⟨j, other, rfl⟩ | ⟨j, others, ds, rfl⟩ := quoted_of_lead (lead_eq h).symm
  · simp only [fingerprintChars, List.append_assoc, List.cons_append] at h
    obtain ⟨-, h⟩ := quoted_append_inj h
    simp at h
  · simp only [fingerprintChars, List.append_assoc, List.cons_append, List.nil_append] at h
    obtain ⟨htype, h⟩ := quoted_append_inj h
    obtain ⟨hfields, -⟩ := fieldChars_append_inj (by decide) (fun e _ => e.2.delimited)
      (List.cons.inj h).2
    exact ⟨j, others, ds, rfl, htype, hfields⟩

end Node

end ScopedConfig
