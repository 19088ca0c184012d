import ScopedConfig.Proofs.Fingerprint
import ScopedConfig.Proofs.Fresh
import ScopedConfig.Proofs.Outcome

/-!
# Pairs of a merge

A fresh pair is never dropped as stale. In a set the first item with a key stands for the key, in a
map the entry; it is combined with the parent's, and what comes of it is found in the result. An
item that takes its missing properties from the parent's keeps its key.
-/

namespace ScopedConfig.Merge

open Schema Node ScopedConfig.Except

variable {rules : Rules}

/-! ## Fresh pairs -/

theorem settle_of_fresh {owner place : String} {p : Property} {parent child : Node} {v : Verdict}
    (hfresh : isStale parent child = false)
    (h : settle rules owner place p parent child = .ok v) :
    (parent.kind = p.kind ∧ child.kind = p.kind) ∧
      (child.isAbsent = true ∧ v = .settled parent .zero ∨
        (child.isAbsent = false ∧ parent.isAbsent = true) ∧ v = .settled child .zero ∨
        (child.isAbsent = false ∧ parent.isAbsent = false) ∧ v = .undecided .zero) := by
  obtain ⟨_, -, h⟩ := bind_eq_ok.1 h
  obtain ⟨_, hkinds, h⟩ := bind_eq_ok.1 h
  refine ⟨checkKinds_ok hkinds, ?_⟩
  rw [judge_fresh hfresh] at h
  cases hc : child.isAbsent with
  | true =>
    simp only [hc, if_true, pure_eq_ok] at h
    exact .inl ⟨rfl, h.symm⟩
  | false =>
    cases hp : parent.isAbsent with
    | true =>
      simp only [hc, hp, Bool.false_eq_true, if_true, if_false, pure_eq_ok] at h
      exact .inr (.inl ⟨⟨rfl, rfl⟩, h.symm⟩)
    | false =>
      simp only [hc, hp, Bool.false_eq_true, if_false, pure_eq_ok] at h
      exact .inr (.inr ⟨⟨rfl, rfl⟩, h.symm⟩)

/-- A fresh pair comes to one of its sides because the other is absent, or to its merged values. -/
theorem property_of_fresh {owner place : String} {p : Property} {parent child node : Node}
    {stale : Totals} (hfresh : isStale parent child = false)
    (h : property rules owner place p parent child = .ok (node, stale)) :
    (parent.kind = p.kind ∧ child.kind = p.kind) ∧
      (child.isAbsent = true ∧ node = parent ∨
        (child.isAbsent = false ∧ parent.isAbsent = true) ∧ node = child ∨
        (child.isAbsent = false ∧ parent.isAbsent = false) ∧
          ∃ inner, ValuesTo rules place p parent child node inner) := by
  obtain hv | ⟨first, inner, hv, hvalues, -⟩ := property_ok h
  · obtain ⟨hkinds, ⟨hc, hv⟩ | ⟨hp, hv⟩ | ⟨-, hv⟩⟩ := settle_of_fresh hfresh hv
    · cases hv
      exact ⟨hkinds, .inl ⟨hc, rfl⟩⟩
    · cases hv
      exact ⟨hkinds, .inr (.inl ⟨hp, rfl⟩)⟩
    · cases hv
  · obtain ⟨hkinds, ⟨-, hv⟩ | ⟨-, hv⟩ | ⟨hboth, -⟩⟩ := settle_of_fresh hfresh hv
    · cases hv
    · cases hv
    · exact ⟨hkinds, .inr (.inr ⟨hboth, inner, hvalues⟩)⟩

/-! ## Items and entries -/

theorem checkItemKind_ok {place : String} {p : Property} {item : Node}
    (h : checkItemKind place p item = .ok ()) : item.kind = p.itemKind.kind := by
  by_contra hne
  simp [checkItemKind, hne] at h

theorem keyItems_kind {place : String} {p : Property} {own : List Node}
    {keyed : List (String × Node)} (h : keyItems rules place p own = .ok keyed) :
    ∀ item ∈ own, item.kind = p.itemKind.kind := by
  induction own generalizing keyed with
  | nil => simp
  | cons item rest ih =>
    obtain ⟨_, hkind, h⟩ := bind_eq_ok.1 h
    obtain ⟨key, -, h⟩ := bind_eq_ok.1 h
    obtain ⟨keyedRest, hrest, -⟩ := bind_eq_ok.1 h
    rw [List.forall_mem_cons]
    exact ⟨checkItemKind_ok hkind, ih hrest⟩

theorem keyItems_key {place : String} {p : Property} {own : List Node}
    {keyed : List (String × Node)} (h : keyItems rules place p own = .ok keyed) :
    ∀ e ∈ keyed, e.2 ∈ own ∧ rules.schema.itemKey p place e.2 = .ok e.1 := by
  induction own generalizing keyed with
  | nil =>
    cases h
    simp
  | cons item rest ih =>
    obtain ⟨key, keyedRest, hkey, hrest, rfl⟩ := keyItems_cons h
    rw [List.forall_mem_cons]
    refine ⟨⟨List.mem_cons_self, hkey⟩, fun e he => ?_⟩
    obtain ⟨hmem, hkey'⟩ := ih hrest e he
    exact ⟨List.mem_cons_of_mem _ hmem, hkey'⟩

theorem checkEntries_kind {place : String} {p : Property} {own : List (String × Node)}
    (h : checkEntries place p own = .ok ()) : ∀ e ∈ own, e.2.kind = p.itemKind.kind := by
  intro e he
  exact checkItemKind_ok (forM_eq_ok.1 h e he)

theorem items_first {place : String} {p : Property} {policy : ItemPolicy}
    {above keyed : List (String × Node)} {seen : List String} {merged : List Node}
    {stale : Totals} {key : String} {child : Node} (hseen : key ∉ seen)
    (hchild : keyed.lookup key = some child)
    (h : items rules place p policy above seen (keyed.map Prod.fst) (keyed.map Prod.snd) =
      .ok (merged, stale)) :
    ∃ kept first, item rules place p policy (above.lookup key) key child = .ok (kept, first) ∧
      ∀ n, kept = some n → n ∈ merged := by
  -- The keys met so far grow along the list, but do not contain `key` before its first item.
  induction keyed generalizing seen merged stale with
  | nil => cases hchild
  | cons e rest ih =>
    obtain ⟨k, n⟩ := e
    rw [List.lookup_cons] at hchild
    obtain ⟨hmet, h⟩ | ⟨-, kept, first, others, more, hitem, hmore, rfl, -⟩ := items_cons_ok h
    · cases hk : key == k with
      | true =>
        rw [eq_of_beq hk] at hseen
        exact absurd (List.contains_iff_mem.1 hmet) hseen
      | false =>
        rw [hk] at hchild
        exact ih hseen hchild h
    · cases hk : key == k with
      | true =>
        rw [hk] at hchild
        cases hchild
        obtain rfl : key = k := eq_of_beq hk
        exact ⟨kept, first, hitem, fun n hn => by simp [hn]⟩
      | false =>
        rw [hk] at hchild
        have hseen' : key ∉ k :: seen := by
          rw [List.mem_cons, not_or]
          exact ⟨by simpa using hk, hseen⟩
        obtain ⟨kept', first', hitem', hmem⟩ := ih hseen' hchild hmore
        exact ⟨kept', first', hitem', fun n hn => List.mem_append_right _ (hmem n hn)⟩

theorem entries_lookup {place : String} {p : Property} {policy : ItemPolicy}
    {above own merged : List (String × Node)} {stale : Totals} {key : String} {child : Node}
    (hchild : own.lookup key = some child)
    (h : entries rules place p policy above own = .ok (merged, stale)) :
    ∃ kept first, item rules place p policy (above.lookup key) key child = .ok (kept, first) ∧
      ∀ n, kept = some n → merged.lookup key = some n := by
  induction own generalizing merged stale with
  | nil => cases hchild
  | cons e rest ih =>
    obtain ⟨k, n⟩ := e
    obtain ⟨kept, first, others, more, hitem, hmore, rfl, -⟩ := entries_cons_ok h
    rw [List.lookup_cons] at hchild
    cases hk : key == k with
    | true =>
      rw [hk] at hchild
      cases hchild
      obtain rfl : key = k := eq_of_beq hk
      exact ⟨kept, first, hitem, fun n hn => by simp [hn]⟩
    | false =>
      rw [hk] at hchild
      obtain ⟨kept', first', hitem', hlookup⟩ := ih hchild hmore
      refine ⟨kept', first', hitem', fun n hn => ?_⟩
      cases kept <;> simp [List.lookup_cons, hk, hlookup n hn]

theorem item_useChild {place : String} {p : Property} {above kept : Option Node} {key : String}
    {child : Node} {stale : Totals} (hadd : p.policy.entryAdded = .add)
    (h : item rules place p .useChild above key child = .ok (kept, stale)) :
    above = none ∧ kept = some child ∨
      ∃ parent, above = some parent ∧ kept = some (backfill parent child) := by
  cases above with
  | none =>
    obtain ⟨-, rfl, -⟩ | ⟨_, hsome, -⟩ := item_ok h
    · exact .inl ⟨rfl, by rw [added, hadd]⟩
    · cases hsome
  | some parent =>
    refine .inr ⟨parent, rfl, ?_⟩
    cases child with
    | complex info own declared =>
      rw [item] at h
      obtain ⟨choice, hchoice, h⟩ := bind_eq_ok.1 h
      cases hchoice
      exact (pure_pair_eq_ok.1 h).1.symm
    | simple | list | set | map =>
      simp only [item] at h
      obtain ⟨choice, hchoice, h⟩ := bind_eq_ok.1 h
      cases hchoice
      rw [← (pure_pair_eq_ok.1 h).1, backfill]
      simp

theorem effectiveItemPolicy_useChild {p : Property} (h : p.policy.item = .useChild)
    (parent : Node) : effectiveItemPolicy p parent = .useChild := by
  simp [effectiveItemPolicy, h]

theorem effectiveItemPolicy_merge {p : Property} {parent : Node}
    (h : effectiveItemPolicy p parent = .merge) : p.policy.item = .merge := by
  unfold effectiveItemPolicy at h
  split at h
  · cases h
  · exact h

/-! ## Missing properties -/

theorem info_backfill (parent child : Node) : (backfill parent child).info = child.info := by
  cases parent <;> cases child <;> rfl

theorem kind_backfill (parent child : Node) : (backfill parent child).kind = child.kind := by
  cases parent <;> cases child <;> rfl

theorem backfill_of_kind {parent child : Node} (h : child.kind ≠ .complex) :
    backfill parent child = child := by
  cases child with
  | complex => exact absurd rfl h
  | simple | list | set | map => cases parent <;> rfl

theorem property?_backfill (parent : Node) {child : Node} {name : String} {n : Node}
    (h : child.property? name = some n) : (backfill parent child).property? name = some n := by
  cases child with
  | complex info own declared =>
    cases parent with
    | complex _ inherited _ => exact Keyed.lookup_fillFrom_of_some inherited h
    | simple | list | set | map => exact h
  | simple | list | set | map => cases h

theorem fillFrom_of_names {extra l : List (String × Node)}
    (h : extra.map Prod.fst ⊆ l.map Prod.fst) : Keyed.fillFrom extra l = l := by
  apply Keyed.fillFrom_induction (motive := (· = l)) rfl
  intro acc e he hnone _
  have hmem := Keyed.lookup_isSome_iff.2 (h (List.mem_map_of_mem he))
  rw [hnone] at hmem
  cases hmem

theorem backfill_of_names {parent child : Node} (h : child.kind = .complex →
      (parent.properties?.getD []).map Prod.fst ⊆ (child.properties?.getD []).map Prod.fst) :
    backfill parent child = child := by
  by_cases hcomplex : child.kind = .complex
  case neg => exact backfill_of_kind hcomplex
  cases child with
  | simple | list | set | map => cases hcomplex
  | complex info own declared =>
    cases parent with
    | complex _ inherited _ =>
      have hnames : inherited.map Prod.fst ⊆ own.map Prod.fst := h rfl
      rw [backfill, fillFrom_of_names hnames]
    | simple | list | set | map => rfl

/-- The parent's item is identified by a complex node, and the key is the fingerprint of that. -/
def KeyedByNode (s : Schema) (p : Property) (parent : Node) (key : String) : Prop :=
  p.polymorphic = true ∧ ∃ name value, identityOf? s p parent = some (.property name) ∧
    parent.property? name = some value ∧ value.kind = .complex ∧ value.fingerprint = key

theorem polymorphic_of_content {s : Schema} {p : Property} {info : Info}
    {own : List (String × Node)} {declared : List String}
    (hkind : (Node.complex info own declared).kind = p.itemKind.kind)
    (h : identityOf? s p (.complex info own declared) = some .content) : p.polymorphic = true := by
  unfold identityOf? at h
  cases hitem : p.itemKind with
  | simple => simp [hitem, Node.kind, ItemKind.kind] at hkind
  | complex =>
    simp only [hitem] at h
    cases hp : p.polymorphic with
    | true => rfl
    | false =>
      rw [if_neg (by simp [hp])] at h
      obtain ⟨_, -, h⟩ := Option.map_eq_some_iff.1 h
      cases h

theorem itemKey_backfill_property {s : Schema} {p : Property} {place : String}
    {parent child : Node} {key name : String}
    (hidentity : identityOf? s p child = some (.property name))
    (h : s.itemKey p place child = .ok key) :
    s.itemKey p place (backfill parent child) = .ok key := by
  have hsame : identityOf? s p (backfill parent child) = some (.property name) := by
    rw [← hidentity]
    simp [identityOf?, Node.typeName, info_backfill]
  rw [itemKey_eq_ok, hidentity, Option.bind_some] at h
  obtain ⟨value, hvalue, hfingerprint⟩ := Option.map_eq_some_iff.1 h
  simp [itemKey_eq_ok, hsame, Identity.key?, property?_backfill parent hvalue, hfingerprint]

/-- The key stays, unless the parent's item has it by accident: one is told apart by its whole
content, and the other by a property that happens to have that content. -/
theorem itemKey_backfill {s : Schema} {p : Property} {place : String} {parent child : Node}
    {key : String} (hkind : child.kind = p.itemKind.kind)
    (hparentKey : s.itemKey p place parent = .ok key)
    (hchildKey : s.itemKey p place child = .ok key) :
    s.itemKey p place (backfill parent child) = .ok key ∨ KeyedByNode s p parent key := by
  by_cases hcomplex : child.kind = .complex
  case neg =>
    rw [backfill_of_kind hcomplex]
    exact .inl hchildKey
  cases hidentity : identityOf? s p child with
  | none => simp [itemKey_eq_ok, hidentity] at hchildKey
  | some identity =>
    cases identity with
    | property name => exact .inl (itemKey_backfill_property hidentity hchildKey)
    | content =>
      have hsame : identityOf? s p (backfill parent child) = some .content := by
        rw [← hidentity]
        simp [identityOf?, Node.typeName, info_backfill]
      rw [itemKey_eq_ok] at hparentKey hchildKey ⊢
      rw [hidentity, Option.bind_some] at hchildKey
      rw [hsame]
      obtain rfl : child.fingerprint = key := Option.some.inj hchildKey
      cases hother : identityOf? s p parent with
      | none => simp [hother] at hparentKey
      | some other =>
        rw [hother, Option.bind_some] at hparentKey
        cases child with
        | simple | list | set | map => simp [Node.kind] at hcomplex
        | complex info own declared =>
          cases other with
          | content =>
            -- The two items have the same content, so nothing is missing.
            obtain ⟨j, others, ds, rfl, -, hfields⟩ :=
              eq_of_fingerprint_complex (Option.some.inj hparentKey).symm
            have hnames := names_of_fieldParts hfields
            refine .inl ?_
            rw [backfill, fillFrom_of_names (by rw [hnames]; exact List.Subset.refl _)]
            rfl
          | property name =>
            obtain ⟨value, hvalue, hfingerprint⟩ := Option.map_eq_some_iff.1 hparentKey
            obtain ⟨j, others, ds, rfl, -, -⟩ := eq_of_fingerprint_complex hfingerprint.symm
            refine .inr ⟨?_, name, _, hother, hvalue, rfl, hfingerprint⟩
            exact polymorphic_of_content hkind hidentity

end ScopedConfig.Merge
