import Mathlib.Data.List.Induction
import ScopedConfig.Proofs.Checked
import ScopedConfig.Proofs.Kindred
import ScopedConfig.Proofs.Pairing
import ScopedConfig.Proofs.Provenance

/-!
# Merged sets and maps

A merged set has one item for each key: what becomes of the child's first item with it, or the
parent's first item if the child has none and entries of the parent are kept. A merge of two items
with one key has that key.
-/

namespace ScopedConfig

namespace Merge

open Schema Node ScopedConfig.Except

variable {rules : Rules} {place : String} {p : Property} {policy : ItemPolicy}

/-! ## One pair -/

theorem item_alone {key : String} {child : Node} {kept : Option Node} {stale : Totals}
    (h : item rules place p policy none key child = .ok (kept, stale)) : kept = added p child := by
  obtain ⟨-, hkept, -⟩ | ⟨_, hsome, -⟩ := item_ok h
  · exact hkept
  · cases hsome

theorem item_added {key : String} {child node : Node} {stale : Totals}
    (h : item rules place p policy none key child = .ok (some node, stale)) :
    p.policy.entryAdded = .add ∧ node = child := by
  have hadded := item_alone h
  unfold added at hadded
  split at hadded
  · exact ⟨‹_›, Option.some.inj hadded⟩
  · cases hadded

/-- A pair comes to one of its sides, to the child's only because the parent's is absent, or to its
merged values. -/
theorem property_sides {owner : String} {parent child node : Node} {stale : Totals}
    (h : property rules owner place p parent child = .ok (node, stale)) :
    (parent.kind = p.kind ∧ child.kind = p.kind) ∧
      (node = parent ∨ (child.isAbsent = false ∧ parent.isAbsent = true) ∧ node = child ∨
        (child.isAbsent = false ∧ parent.isAbsent = false) ∧
          ∃ inner, ValuesTo rules place p parent child node inner) := by
  have habsent {v : Verdict} (hv : settle rules owner place p parent child = .ok v)
      (hchild : child.isAbsent = true) : v = .settled parent .zero := by
    obtain ⟨_, -, hv⟩ := bind_eq_ok.1 hv
    obtain ⟨_, -, hv⟩ := bind_eq_ok.1 hv
    rw [if_pos hchild] at hv
    exact (pure_eq_ok.1 hv).symm
  obtain hv | ⟨first, inner, hv, hvalues, -⟩ := property_ok h
  · obtain ⟨hkinds, hcases⟩ := settle_ok hv
    refine ⟨hkinds, ?_⟩
    cases hchild : child.isAbsent with
    | true =>
      cases habsent hv hchild
      exact .inl rfl
    | false =>
      obtain ⟨hthere, -⟩ | ⟨hparent, hv⟩ | ⟨-, -, hv | hv⟩ := hcases
      · simp [hchild] at hthere
      · cases hv
        exact .inr (.inl ⟨⟨rfl, hparent⟩, rfl⟩)
      · cases hv
        exact .inl rfl
      · cases hv
  · obtain ⟨hkinds, ⟨hthere, hv⟩ | ⟨-, hv⟩ | ⟨hboth, -⟩⟩ := settle_ok hv
    · cases hv
    · cases hv
    · exact ⟨hkinds, .inr (.inr ⟨hboth, inner, hvalues⟩)⟩

theorem settle_present {owner : String} {parent child : Node} {v : Verdict}
    (hparent : parent.isAbsent = false) (hchild : child.isAbsent = false)
    (h : settle rules owner place p parent child = .ok v) :
    v = if (judge p.policy.stale parent child).1 then .settled parent v.stale
      else .undecided v.stale := by
  obtain ⟨_, -, h⟩ := bind_eq_ok.1 h
  obtain ⟨_, -, h⟩ := bind_eq_ok.1 h
  simp only [hchild, hparent, Bool.false_eq_true, if_false, pure_eq_ok] at h
  subst h
  cases (judge p.policy.stale parent child).1 <;> rfl

theorem parent_of_dropped {owner : String} {parent child node : Node} {stale : Totals}
    (hparent : parent.isAbsent = false) (hchild : child.isAbsent = false)
    (hdropped : (judge p.policy.stale parent child).1 = true)
    (h : property rules owner place p parent child = .ok (node, stale)) : node = parent := by
  obtain hv | ⟨first, inner, hv, -⟩ := property_ok h
  all_goals
    have hsettled := settle_present hparent hchild hv
    rw [hdropped] at hsettled
    cases hsettled
  rfl

theorem values_of_kept {owner : String} {parent child node : Node} {stale : Totals}
    (hparent : parent.isAbsent = false) (hchild : child.isAbsent = false)
    (hkept : (judge p.policy.stale parent child).1 = false)
    (h : property rules owner place p parent child = .ok (node, stale)) :
    p.check owner rules.schema rules.strategies = .ok () ∧
      (parent.kind = p.kind ∧ child.kind = p.kind) ∧
      ∃ inner, ValuesTo rules place p parent child node inner := by
  obtain hv | ⟨first, inner, hv, hvalues, -⟩ := property_ok h
  · have hundecided := settle_present hparent hchild hv
    rw [hkept] at hundecided
    cases hundecided
  · obtain ⟨_, hcheck, -⟩ := bind_eq_ok.1 hv
    exact ⟨hcheck, (settle_ok hv).1, inner, hvalues⟩

theorem chooseItem_merge {choice : Choice} (h : chooseItem rules place p .merge = .ok choice) :
    ∃ type, choice = .combine type := by
  simp only [chooseItem] at h
  split at h
  · cases h
  · obtain ⟨type, -, rfl⟩ := map_eq_ok.1 h
    exact ⟨type, rfl⟩

/-- What becomes of two items with one key depends on the item policy alone. -/
theorem item_paired {parent child : Node} {key : String} {kept : Option Node} {stale : Totals}
    (h : item rules place p policy (some parent) key child = .ok (kept, stale)) :
    policy = .useParent ∧ kept = some parent ∨
      policy = .useChild ∧ kept = some (backfill parent child) ∨
      policy = .merge ∧ ∃ place type info own declared merged, child = .complex info own declared ∧
        (p.polymorphic = false ∧ p.itemKind = .complex ∧
          rules.schema.find? p.typeName = some type) ∧
        properties rules place type (parent.properties?.getD []) own = .ok (merged, stale) ∧
        kept = some (joined info declared parent merged) := by
  cases policy with
  | useParent =>
    refine .inl ⟨rfl, ?_⟩
    cases child <;> exact (pure_pair_eq_ok.1 h).1.symm
  | useChild =>
    refine .inr (.inl ⟨rfl, ?_⟩)
    cases child with
    | complex => exact (pure_pair_eq_ok.1 h).1.symm
    | simple | list | set | map =>
      rw [backfill_of_kind (by simp [Node.kind])]
      exact (pure_pair_eq_ok.1 h).1.symm
  | merge =>
    refine .inr (.inr ⟨rfl, ?_⟩)
    cases child with
    | complex info own declared =>
      rw [item] at h
      obtain ⟨choice, hchoice, h⟩ := bind_eq_ok.1 h
      obtain ⟨type, rfl⟩ := chooseItem_merge hchoice
      obtain ⟨_, -, h⟩ := bind_eq_ok.1 h
      obtain ⟨⟨merged, inner⟩, hmerged, h⟩ := bind_eq_ok.1 h
      obtain ⟨rfl, rfl⟩ := pure_pair_eq_ok.1 h
      exact ⟨_, type, info, own, declared, merged, rfl, chooseItem_combine hchoice, hmerged, rfl⟩
    | simple | list | set | map =>
      simp only [item] at h
      obtain ⟨choice, hchoice, h⟩ := bind_eq_ok.1 h
      obtain ⟨type, rfl⟩ := chooseItem_merge hchoice
      obtain ⟨_, hcheck, -⟩ := bind_eq_ok.1 h
      have hkind := (checkComplex_ok hcheck).2
      simp [Node.kind] at hkind

theorem item_kept {parent child : Node} {key : String} {kept : Option Node} {stale : Totals}
    (h : item rules place p policy (some parent) key child = .ok (kept, stale)) :
    ∃ node, kept = some node := by
  obtain ⟨-, hkept⟩ | ⟨-, hkept⟩ | ⟨-, _, _, _, _, _, _, -, -, -, hkept⟩ := item_paired h
  all_goals exact ⟨_, hkept⟩

/-! ## Properties and entries -/

theorem mem_properties {place : String} {type : Record}
    {inherited own merged : List (String × Node)} {stale : Totals}
    (h : properties rules place type inherited own = .ok (merged, stale)) :
    ∀ e ∈ merged, ∃ child, (e.1, child) ∈ own ∧
      ((inherited.lookup e.1 = none ∨ type.find? e.1 = none) ∧ e.2 = child ∨
        ∃ parent p first, inherited.lookup e.1 = some parent ∧ type.find? e.1 = some p ∧
          property rules type.name (place ++ "." ++ e.1) p parent child = .ok (e.2, first)) := by
  induction own generalizing merged stale with
  | nil =>
    cases h
    simp
  | cons e rest ih =>
    obtain ⟨name, child⟩ := e
    obtain ⟨node, first, nodes, others, hfirst, hrest, rfl, -⟩ := properties_cons_ok h
    rw [List.forall_mem_cons]
    refine ⟨⟨child, List.mem_cons_self, ?_⟩, fun e he => ?_⟩
    · obtain ⟨parent, p, hparent, hp, hproperty⟩ | ⟨hnone, rfl, -⟩ := hfirst
      · exact .inr ⟨parent, p, first, hparent, hp, hproperty⟩
      · exact .inl ⟨hnone, rfl⟩
    · obtain ⟨c, hc, hsource⟩ := ih hrest e he
      exact ⟨c, List.mem_cons_of_mem _ hc, hsource⟩

theorem mem_entries {place : String} {policy : ItemPolicy}
    {inherited own merged : List (String × Node)} {stale : Totals}
    (h : entries rules place p policy inherited own = .ok (merged, stale)) :
    ∀ e ∈ merged, ∃ child first, (e.1, child) ∈ own ∧
      item rules place p policy (inherited.lookup e.1) e.1 child = .ok (some e.2, first) := by
  induction own generalizing merged stale with
  | nil =>
    cases h
    simp
  | cons e rest ih =>
    obtain ⟨key, child⟩ := e
    obtain ⟨kept, first, others, more, hitem, hmore, rfl, -⟩ := entries_cons_ok h
    intro e he
    rcases List.mem_append.1 he with he | he
    · obtain ⟨node, rfl, rfl⟩ := Option.map_eq_some_iff.1 (Option.mem_toList.1 he)
      exact ⟨child, first, List.mem_cons_self, hitem⟩
    · obtain ⟨c, first', hc, hitem'⟩ := ih hmore e he
      exact ⟨c, first', List.mem_cons_of_mem _ hc, hitem'⟩

/-! ## The items of both sides -/

/-- The merged items with their keys: for each key that was not seen, what becomes of the first of
the child's items with it. -/
structure Pairs (rules : Rules) (place : String) (p : Property) (policy : ItemPolicy)
    (above keyed : List (String × Node)) (seen : List String) (pairs : List (String × Node)) :
    Prop where
  nodup : (pairs.map Prod.fst).Nodup
  fresh : ∀ e ∈ pairs, e.1 ∉ seen
  source : ∀ e ∈ pairs, ∃ child first, keyed.lookup e.1 = some child ∧
    item rules place p policy (above.lookup e.1) e.1 child = .ok (some e.2, first)
  complete : ∀ key child, key ∉ seen → keyed.lookup key = some child → ∃ kept first,
    item rules place p policy (above.lookup key) key child = .ok (kept, first) ∧
      ∀ n, kept = some n → (key, n) ∈ pairs

variable {above keyed : List (String × Node)}

theorem Pairs.skip {key : String} {child : Node} {seen : List String}
    {pairs : List (String × Node)} (hmet : key ∈ seen)
    (h : Pairs rules place p policy above keyed seen pairs) :
    Pairs rules place p policy above ((key, child) :: keyed) seen pairs := by
  have hskip {k : String} (hk : k ∉ seen) : ((key, child) :: keyed).lookup k = keyed.lookup k := by
    have hne : k ≠ key := fun he => hk (he ▸ hmet)
    rw [List.lookup_cons, beq_eq_false_iff_ne.2 hne]
  refine ⟨h.nodup, h.fresh, fun e he => ?_, fun k c hk hc => ?_⟩
  · rw [hskip (h.fresh e he)]
    exact h.source e he
  · rw [hskip hk] at hc
    exact h.complete k c hk hc

theorem Pairs.cons {key : String} {child : Node} {seen : List String} {kept : Option Node}
    {first : Totals} {pairs : List (String × Node)} (hnew : key ∉ seen)
    (hitem : item rules place p policy (above.lookup key) key child = .ok (kept, first))
    (h : Pairs rules place p policy above keyed (key :: seen) pairs) :
    Pairs rules place p policy above ((key, child) :: keyed) seen
      ((kept.map fun n => (key, n)).toList ++ pairs) := by
  have hskip {k : String} (hk : k ≠ key) : ((key, child) :: keyed).lookup k = keyed.lookup k := by
    rw [List.lookup_cons, beq_eq_false_iff_ne.2 hk]
  -- The rest has met `key` already, so none of its pairs has that key.
  have hother {e : String × Node} (he : e ∈ pairs) : e.1 ≠ key :=
    fun hk => h.fresh e he (List.mem_cons.2 (.inl hk))
  have hfirst : ((key, child) :: keyed).lookup key = some child := by simp
  have hmem {e : String × Node} (he : e ∈ (kept.map fun n => (key, n)).toList) :
      ∃ n, kept = some n ∧ e = (key, n) := by
    obtain ⟨n, hn, rfl⟩ := Option.map_eq_some_iff.1 (Option.mem_toList.1 he)
    exact ⟨n, hn, rfl⟩
  refine ⟨?_, fun e he => ?_, fun e he => ?_, fun k c hk hc => ?_⟩
  · cases kept with
    | none => exact h.nodup
    | some n =>
      refine List.nodup_cons.2 ⟨fun hkey => ?_, h.nodup⟩
      obtain ⟨e, he, hk⟩ := List.mem_map.1 hkey
      exact hother he hk
  · rcases List.mem_append.1 he with he | he
    · obtain ⟨n, -, rfl⟩ := hmem he
      exact hnew
    · exact fun hk => h.fresh e he (List.mem_cons_of_mem _ hk)
  · rcases List.mem_append.1 he with he | he
    · obtain ⟨n, rfl, rfl⟩ := hmem he
      exact ⟨child, first, hfirst, hitem⟩
    · rw [hskip (hother he)]
      exact h.source e he
  · by_cases hkey : k = key
    · subst hkey
      rw [hfirst] at hc
      cases hc
      refine ⟨kept, first, hitem, ?_⟩
      rintro n rfl
      simp
    · rw [hskip hkey] at hc
      obtain ⟨kept', first', hitem', hlater⟩ := h.complete k c (by simp [hkey, hk]) hc
      exact ⟨kept', first', hitem', fun n hn => List.mem_append_right _ (hlater n hn)⟩

theorem items_pairs {seen : List String} {merged : List Node} {stale : Totals}
    (h : items rules place p policy above seen (keyed.map Prod.fst) (keyed.map Prod.snd) =
      .ok (merged, stale)) :
    ∃ pairs, merged = pairs.map Prod.snd ∧ Pairs rules place p policy above keyed seen pairs := by
  induction keyed generalizing seen merged stale with
  | nil =>
    cases h
    exact ⟨[], rfl, .nil, by simp, by simp, by simp⟩
  | cons e rest ih =>
    obtain ⟨hmet, h⟩ | ⟨hnew, kept, first, others, more, hitem, hmore, rfl, -⟩ := items_cons_ok h
    · obtain ⟨pairs, rfl, hpairs⟩ := ih h
      exact ⟨pairs, rfl, hpairs.skip (List.contains_iff_mem.1 hmet)⟩
    · obtain ⟨pairs, rfl, hpairs⟩ := ih hmore
      exact ⟨_, by cases kept <;> rfl, hpairs.cons (by simpa using hnew) hitem⟩

/-! ## Entries of the parent alone -/

theorem survivors_snoc {keys : List String} (hadd : p.policy.entryRemoved = .add)
    (e : String × Node) :
    survivors p (above ++ [e]) keys =
      if keys.contains e.1 || ((survivors p above keys).lookup e.1).isSome then
        survivors p above keys
      else survivors p above keys ++ [e] := by
  simp only [survivors, hadd, List.foldl_append, List.foldl_cons, List.foldl_nil]

theorem lookup_survivors {keys : List String} (hadd : p.policy.entryRemoved = .add)
    (key : String) :
    (survivors p above keys).lookup key = if key ∈ keys then none else above.lookup key := by
  induction above using List.reverseRecOn with
  | nil => simp [survivors, hadd]
  | append_singleton init e ih =>
    rw [survivors_snoc hadd, List.lookup_append]
    by_cases hkey : key = e.1
    · subst hkey
      by_cases hmem : e.1 ∈ keys
      · simp [hmem, ih]
      · rw [if_neg hmem] at ih
        cases hinit : init.lookup e.1 <;> simp [hmem, hinit, ih, List.lookup_append]
    · have hlast : [e].lookup key = none := by simp [hkey]
      split <;> simp [List.lookup_append, hlast, ih]

theorem survivors_nodup (keys : List String) :
    ((survivors p above keys).map Prod.fst).Nodup := by
  cases hremoved : p.policy.entryRemoved with
  | remove => simp [survivors, hremoved]
  | add =>
    induction above using List.reverseRecOn with
    | nil => simp [survivors, hremoved]
    | append_singleton init e ih =>
      rw [survivors_snoc hremoved]
      split
      case isTrue => exact ih
      case isFalse hnew =>
        simp only [Bool.or_eq_true, not_or, Keyed.lookup_isSome_iff] at hnew
        rw [List.map_append, List.nodup_append]
        refine ⟨ih, by simp, fun k hk k' hk' => ?_⟩
        obtain rfl : k' = e.1 := by simpa using hk'
        exact fun he => hnew.2 (he ▸ hk)

theorem mem_survivors {keys : List String} {e : String × Node}
    (h : e ∈ survivors p above keys) :
    p.policy.entryRemoved = .add ∧ e.1 ∉ keys ∧ above.lookup e.1 = some e.2 := by
  cases hremoved : p.policy.entryRemoved with
  | remove => simp [survivors, hremoved] at h
  | add =>
    have hlookup := Keyed.lookup_of_nodup (survivors_nodup keys) h
    rw [lookup_survivors hremoved] at hlookup
    split at hlookup
    · cases hlookup
    · exact ⟨rfl, ‹_›, hlookup⟩

/-! ## Schemas whose merges are choices -/

end Merge

namespace Schema

def HasProperty (s : Schema) (p : Property) : Prop := ∃ type ∈ s.records, p ∈ type.properties

theorem hasProperty_of_find? {s : Schema} {typeName name : String} {type : Record} {p : Property}
    (htype : s.find? typeName = some type) (hp : type.find? name = some p) : s.HasProperty p :=
  ⟨type, mem_records htype, List.mem_of_find?_eq_some hp⟩

/-- The value is made by a strategy from both sides. -/
def ValuePolicy.isNamed : ValuePolicy → Bool
  | .strategy _ => true
  | _ => false

end Schema

namespace Merge

open Schema Node ScopedConfig.Except

/-- The schema is accepted, it names no strategy, and no set in it is polymorphic. -/
structure Steady (rules : Rules) : Prop where
  valid : rules.schema.validate rules.strategies = .ok ()
  plain : ∀ type ∈ rules.schema.records, ∀ p ∈ type.properties, p.policy.value.isNamed = false
  concrete : ∀ type ∈ rules.schema.records, ∀ p ∈ type.properties, p.kind = .set →
    p.polymorphic = false

variable {rules : Rules} {place : String} {p : Property} {policy : ItemPolicy}

theorem Steady.ne_strategy (hrules : Steady rules) (hp : rules.schema.HasProperty p)
    (parent : Node) (name : String) : effectivePolicy p parent ≠ .strategy name := by
  obtain ⟨type, htype, hmem⟩ := hp
  have hplain := hrules.plain type htype p hmem
  unfold effectivePolicy
  split
  · unfold ValuePolicy.standard
    split <;> simp
  · intro h
    simp [h, ValuePolicy.isNamed] at hplain

/-! ## Keys of merged items -/

/-- The property is made by a strategy, which makes something else of two texts that are the
child's. -/
def Rewrites (rules : Rules) (q : Property) (parent child : Node) : Prop :=
  parent.definedAt.isStructural = false ∧ (judge q.policy.stale parent child).1 = false ∧
    ∃ name combine, q.policy.value = .strategy name ∧ rules.strategies.find? name = some combine ∧
      combine child.text? child.text? ≠ child.text?

def RewritesIdentity (rules : Rules) (type : Record) (parent child : Node) : Prop :=
  ∃ identity q above own, type.identity = some identity ∧ type.find? identity = some q ∧
    parent.property? identity = some above ∧ child.property? identity = some own ∧
    Rewrites rules q above own

theorem not_rewrites_of_policy {q : Property} {parent child : Node}
    (h : ∀ name, q.policy.value ≠ .strategy name) : ¬ Rewrites rules q parent child := by
  rintro ⟨-, -, name, _, hvalue, -⟩
  exact h name hvalue

theorem mergeText_fingerprint {q : Property} (hkind : q.kind = .simple) {parent node : Node}
    {info : Info} {text : Option String} (hparent : parent.kind = .simple)
    (hkept : (judge q.policy.stale parent (.simple info text)).1 = false)
    (hsame : parent.fingerprint = (Node.simple info text).fingerprint)
    (h : mergeText rules place (effectivePolicy q parent) parent info text = .ok node) :
    node.fingerprint = (Node.simple info text).fingerprint ↔
      ¬ Rewrites rules q parent (.simple info text) := by
  -- Above defaults the child's text is taken, whatever the property declares.
  cases hdefaults : parent.definedAt.isStructural with
  | true =>
    have hpolicy : effectivePolicy q parent = .useChild :=
      (if_pos hdefaults).trans (by rw [hkind]; rfl)
    rw [hpolicy] at h
    cases h
    refine iff_of_true rfl ?_
    rintro ⟨hscope, -⟩
    simp [hdefaults] at hscope
  | false =>
    have hpolicy : effectivePolicy q parent = q.policy.value :=
      if_neg (by simpa [defaultsOnly] using hdefaults)
    rw [hpolicy] at h
    cases hvalue : q.policy.value with
    | useChild =>
      rw [hvalue] at h
      cases h
      exact iff_of_true rfl (not_rewrites_of_policy (by simp [hvalue]))
    | useParent =>
      rw [hvalue] at h
      cases h
      exact iff_of_true hsame (not_rewrites_of_policy (by simp [hvalue]))
    | merge =>
      rw [hvalue] at h
      cases h
    | strategy name =>
      rw [hvalue, mergeText] at h
      cases hfind : rules.strategies.find? name with
      | none => simp [hfind, Error.misuse] at h
      | some combine =>
        simp only [hfind, Except.ok.injEq] at h
        subst h
        -- The two texts are one, so the strategy is asked about a text and itself.
        have hequal : parent.text? = text := text?_of_fingerprint hparent rfl hsame
        have htext : (Node.simple info (combine parent.text? text)).fingerprint =
            (Node.simple info text).fingerprint ↔ combine text text = text := by
          rw [hequal]
          exact ⟨fun heq => text?_of_fingerprint rfl rfl heq,
            fun heq => fingerprint_of_text? rfl rfl heq⟩
        rw [htext]
        constructor
        · rintro hstays ⟨-, -, name', combine', hvalue', hfind', hchanged⟩
          cases hvalue.symm.trans hvalue'
          cases hfind.symm.trans hfind'
          exact hchanged hstays
        · intro hkeeps
          by_contra hchanged
          exact hkeeps ⟨hdefaults, hkept, name, combine, hvalue, hfind, hchanged⟩

/-- Two equal texts merge to the same text unless a strategy makes another one of them. -/
theorem property_fingerprint {q : Property} (hkind : q.kind = .simple) {owner : String}
    {parent child node : Node} {stale : Totals}
    (h : property rules owner place q parent child = .ok (node, stale))
    (hsame : parent.fingerprint = child.fingerprint) :
    node.fingerprint = child.fingerprint ↔ ¬ Rewrites rules q parent child := by
  obtain ⟨⟨hparent, hchild⟩, -⟩ := property_sides h
  rw [hkind] at hparent hchild
  have habsent : parent.isAbsent = false := isAbsent_of_simple hparent
  cases child with
  | complex | list | set | map => cases hchild
  | simple info text =>
    cases hdropped : (judge q.policy.stale parent (.simple info text)).1 with
    | true =>
      obtain rfl := parent_of_dropped habsent rfl hdropped h
      refine iff_of_true hsame ?_
      rintro ⟨-, hkept, -⟩
      simp [hdropped] at hkept
    | false =>
      obtain ⟨-, -, inner, hmerged, -⟩ := values_of_kept habsent rfl hdropped h
      exact mergeText_fingerprint hkind hparent hdropped hsame hmerged

theorem rewritesIdentity_iff {type : Record} {identity : String} {q : Property}
    {parent child above own : Node} (hidentity : type.identity = some identity)
    (hq : type.find? identity = some q) (habove : parent.property? identity = some above)
    (hown : child.property? identity = some own) :
    RewritesIdentity rules type parent child ↔ Rewrites rules q above own := by
  constructor
  · rintro ⟨_, _, _, _, hidentity', hq', habove', hown', hrewrites⟩
    cases hidentity.symm.trans hidentity'
    cases hq.symm.trans hq'
    cases habove.symm.trans habove'
    cases hown.symm.trans hown'
    exact hrewrites
  · exact fun hrewrites => ⟨identity, q, above, own, hidentity, hq, habove, hown, hrewrites⟩

theorem joined_identity (hvalid : rules.schema.validate rules.strategies = .ok ()) {type : Record}
    {parent : Node} {info : Info} {own merged : List (String × Node)} {declared : List String}
    {key place' : String} {stale : Totals} (hmono : p.polymorphic = false)
    (hitem : p.itemKind = .complex) (htype : rules.schema.find? p.typeName = some type)
    (hparent : rules.schema.itemKey p place parent = .ok key)
    (hchild : rules.schema.itemKey p place (.complex info own declared) = .ok key)
    (h : properties rules place' type (parent.properties?.getD []) own = .ok (merged, stale)) :
    ∃ k, rules.schema.itemKey p place (joined info declared parent merged) = .ok k ∧
      (k = key ↔ ¬ RewritesIdentity rules type parent (.complex info own declared)) := by
  have hidentity (n : Node) :
      identityOf? rules.schema p n = type.identity.map Identity.property := by
    simp [identityOf?, hitem, hmono, htype]
  simp only [itemKey_eq_ok, hidentity] at hparent hchild ⊢
  cases hname : type.identity with
  | none => simp [hname] at hchild
  | some name =>
    simp only [hname, Option.map_some, Option.bind_some, Identity.key?,
      Option.map_eq_some_iff] at hparent hchild ⊢
    obtain ⟨a, ha, hakey⟩ := hparent
    obtain ⟨c, hc, hckey⟩ := hchild
    obtain ⟨q, hq, hsimple⟩ := identity_simple hvalid htype hname
    have habove : (parent.properties?.getD []).lookup name = some a := by
      rw [← property?_eq_lookup]
      exact ha
    have hown : own.lookup name = some c := hc
    -- The new key is the fingerprint of what the identity property merges to.
    obtain ⟨hnone, -⟩ | ⟨c', n, hc', hn, htaken⟩ := properties_lookup name h
    · simp [hown] at hnone
    obtain rfl : c = c' := Option.some.inj (hown.symm.trans hc')
    refine ⟨n.fingerprint, ⟨n, Keyed.lookup_fillFrom_of_some _ hn, rfl⟩, ?_⟩
    obtain ⟨hnone | hnone, -⟩ | ⟨a', q', first, ha', hq', hproperty, -⟩ := htaken
    · cases habove.symm.trans hnone
    · cases hq.symm.trans hnone
    · obtain rfl : a = a' := Option.some.inj (habove.symm.trans ha')
      obtain rfl : q = q' := Option.some.inj (hq.symm.trans hq')
      rw [rewritesIdentity_iff hname hq ha hc, ← hckey]
      exact property_fingerprint hsimple hproperty (hakey.trans hckey.symm)

theorem joined_key (hvalid : rules.schema.validate rules.strategies = .ok ()) {type : Record}
    {parent : Node} {info : Info} {own merged : List (String × Node)} {declared : List String}
    {key place' : String} {stale : Totals} (hmono : p.polymorphic = false)
    (hitem : p.itemKind = .complex) (htype : rules.schema.find? p.typeName = some type)
    (hcombine : ∀ {identity name : String} {q : Property} {combine : Strategy},
      type.identity = some identity → type.find? identity = some q →
      q.policy.value = .strategy name → rules.strategies.find? name = some combine →
      ∀ text, combine text text = text)
    (hparent : rules.schema.itemKey p place parent = .ok key)
    (hchild : rules.schema.itemKey p place (.complex info own declared) = .ok key)
    (h : properties rules place' type (parent.properties?.getD []) own = .ok (merged, stale)) :
    rules.schema.itemKey p place (joined info declared parent merged) = .ok key := by
  obtain ⟨k, hk, hstays⟩ := joined_identity hvalid hmono hitem htype hparent hchild h
  -- Strategies leave an identity that both sides agree on.
  have hkeeps : ¬ RewritesIdentity rules type parent (.complex info own declared) := by
    rintro ⟨identity, q, _, _, hidentity, hq, -, -, -, -, name, combine, hvalue, hfind, hchanged⟩
    exact hchanged (hcombine hidentity hq hvalue hfind _)
  rwa [hstays.2 hkeeps] at hk

theorem Steady.item_key (hrules : Steady rules) {above : Option Node} {key : String}
    {child node : Node} {stale : Totals} (hmono : p.polymorphic = false)
    (hkind : child.kind = p.itemKind.kind)
    (habove : ∀ a, above = some a → rules.schema.itemKey p place a = .ok key)
    (hchild : rules.schema.itemKey p place child = .ok key)
    (h : item rules place p policy above key child = .ok (some node, stale)) :
    rules.schema.itemKey p place node = .ok key := by
  cases above with
  | none =>
    rw [(item_added h).2]
    exact hchild
  | some parent =>
    have hparent := habove parent rfl
    obtain ⟨-, hnode⟩ | ⟨-, hnode⟩ | ⟨-, _, type, info, own, declared, merged, rfl,
      ⟨-, hitem, htype⟩, hmerged, hnode⟩ := item_paired h
    · cases hnode
      exact hparent
    · cases hnode
      obtain hkey | ⟨hpoly, -⟩ := itemKey_backfill hkind hparent hchild
      · exact hkey
      · simp [hmono] at hpoly
    · cases hnode
      refine joined_key hrules.valid hmono hitem htype (fun _ hq hvalue => ?_) hparent hchild
        hmerged
      have hplain := hrules.plain type (mem_records htype) _ (List.mem_of_find?_eq_some hq)
      simp [hvalue, ValuePolicy.isNamed] at hplain

/-- What a declared set merges to has each of its keys once. -/
theorem Steady.merged_set (hrules : Steady rules) (hp : rules.schema.HasProperty p)
    (hkind : p.kind = .set) {parent : Node} {info : Info} {own : List Node} {node : Node}
    {inner : Totals} (h : ValuesTo rules place p parent (.set info (some own)) node inner) :
    ∃ above keyed pairs, keyItems rules place p (parent.items?.getD []) = .ok above ∧
      keyItems rules place p own = .ok keyed ∧
      Pairs rules place p (effectiveItemPolicy p parent) above keyed [] pairs ∧
      node = .set info
        (some ((pairs ++ survivors p above (keyed.map Prod.fst)).map Prod.snd)) ∧
      ((pairs ++ survivors p above (keyed.map Prod.fst)).map Prod.fst).Nodup ∧
      ∀ e ∈ pairs ++ survivors p above (keyed.map Prod.fst),
        rules.schema.itemKey p place e.2 = .ok e.1 := by
  obtain ⟨above, keyed, merged, habove, hkeyed, hmerged, rfl⟩ := h
  rw [← keyItems_items hkeyed] at hmerged
  obtain ⟨pairs, rfl, hpairs⟩ := items_pairs hmerged
  refine ⟨above, keyed, pairs, habove, hkeyed, hpairs, by rw [List.map_append], ?_, ?_⟩
  · rw [List.map_append, List.nodup_append]
    refine ⟨hpairs.nodup, survivors_nodup _, fun k hk k' hk' => ?_⟩
    -- What survives from above has a key that no item of the child has.
    obtain ⟨e, he, rfl⟩ := List.mem_map.1 hk
    obtain ⟨e', he', rfl⟩ := List.mem_map.1 hk'
    obtain ⟨child, _, hchild, -⟩ := hpairs.source e he
    have hkey : e.1 ∈ keyed.map Prod.fst := Keyed.lookup_isSome_iff.1 (by rw [hchild]; rfl)
    exact fun hsame => (mem_survivors he').2.1 (hsame ▸ hkey)
  · have habove' {key : String} {a : Node} (ha : above.lookup key = some a) :
        rules.schema.itemKey p place a = .ok key :=
      (keyItems_key habove _ (Keyed.mem_of_lookup ha)).2
    intro e he
    rcases List.mem_append.1 he with he | he
    · obtain ⟨child, _, hchild, hitem⟩ := hpairs.source e he
      obtain ⟨hmem, hkey⟩ := keyItems_key hkeyed _ (Keyed.mem_of_lookup hchild)
      have hmono : p.polymorphic = false := by
        obtain ⟨type, htype, hmem⟩ := hp
        exact hrules.concrete type htype p hmem hkind
      exact hrules.item_key hmono (keyItems_kind hkeyed child hmem) (fun a ha => habove' ha) hkey
        hitem
    · exact habove' (mem_survivors he).2.2

end Merge

end ScopedConfig
