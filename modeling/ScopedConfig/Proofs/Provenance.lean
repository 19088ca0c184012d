import ScopedConfig.Proofs.Levels
import ScopedConfig.Proofs.Node

/-!
# Where a merged value comes from

A property that the child overrides is, after the merge of any levels, the node of one of the
levels. When the merge meets a stale pair there, the pair is counted.
-/

namespace ScopedConfig.Merge

open Schema ScopedConfig.Except

/-! ## Totals -/

theorem Totals.any_iff {t : Totals} : t.any = true ↔ 1 ≤ t.merged + t.discarded := by
  simp only [Totals.any, Bool.or_eq_true, bne_iff_ne]
  omega

theorem Totals.any_add (a b : Totals) : (a + b).any = (a.any || b.any) := by
  rw [Bool.eq_iff_iff, Bool.or_eq_true, any_iff, any_iff, any_iff, add_def]
  simp only
  omega

theorem judge_stale {policy : StalePolicy} {parent child : Node} (h : isStale parent child = true) :
    (judge policy parent child).2.any = true := by
  cases policy <;> simp [judge, h, Totals.any]

/-! ## One property -/

/-- A text that the child overrides unless policies or kinds are refused. -/
structure Overridden (p : Property) : Prop where
  kind : p.kind = .simple
  policy : p.policy.value = .useChild

variable {rules : Rules} {type : Record} {stale : Totals}

theorem Overridden.effectivePolicy {p : Property} (hp : Overridden p) (parent : Node) :
    effectivePolicy p parent = .useChild := by
  unfold Merge.effectivePolicy
  split
  · rw [hp.kind]
    rfl
  · exact hp.policy

theorem isAbsent_of_simple {n : Node} (h : n.kind = .simple) : n.isAbsent = false := by
  cases n <;> simp [Node.kind] at h
  rfl

/-- The merge takes one of the two nodes as it is, and counts the pair if it is stale. -/
theorem property_overridden {owner place : String} {p : Property} (hp : Overridden p)
    {parent child node : Node} (h : property rules owner place p parent child = .ok (node, stale)) :
    (node = parent ∨ node = child) ∧ (isStale parent child = true → stale.any = true) := by
  have hsettled {v : Verdict} (hv : settle rules owner place p parent child = .ok v) :
      (v = .settled parent v.stale ∨ v = .undecided v.stale) ∧
        (isStale parent child = true → v.stale.any = true) := by
    obtain ⟨⟨hparent, hchild⟩, hcases⟩ := settle_ok hv
    rw [hp.kind] at hparent hchild
    obtain ⟨habsent, -⟩ | ⟨habsent, -⟩ | ⟨-, hstale, hverdict⟩ := hcases
    · simp [isAbsent_of_simple hchild] at habsent
    · simp [isAbsent_of_simple hparent] at habsent
    · exact ⟨hverdict, fun hpair => by rw [hstale]; exact judge_stale hpair⟩
  obtain hv | ⟨first, inner, hv, hvalues, rfl⟩ := property_ok h
  · obtain ⟨hverdict, hcount⟩ := hsettled hv
    rcases hverdict with hverdict | hverdict
    · cases hverdict
      exact ⟨.inl rfl, hcount⟩
    · cases hverdict
  · have hchild := (settle_ok hv).1.2
    obtain ⟨-, hcount⟩ := hsettled hv
    refine ⟨.inr ?_, fun hpair => ?_⟩
    · cases child with
      | simple info text =>
        obtain ⟨hvalue, -⟩ := hvalues
        rw [hp.effectivePolicy, mergeText] at hvalue
        exact (Except.ok.inj hvalue).symm
      | complex | list | set | map =>
        rw [hp.kind] at hchild
        simp [Node.kind] at hchild
    · rw [Totals.any_add]
      simp [show first.any = true from hcount hpair]

/-! ## All properties -/

theorem properties_names {place : String} {inherited own merged : List (String × Node)}
    (h : properties rules place type inherited own = .ok (merged, stale)) :
    merged.map Prod.fst = own.map Prod.fst := by
  induction own generalizing merged stale with
  | nil =>
    cases h
    rfl
  | cons e rest ih =>
    obtain ⟨name, child⟩ := e
    obtain ⟨node, first, nodes, others, -, hrest, rfl, -⟩ := properties_cons_ok h
    simp [ih hrest]

theorem properties_lookup {place : String} {inherited own merged : List (String × Node)}
    (name : String) (h : properties rules place type inherited own = .ok (merged, stale)) :
    own.lookup name = none ∧ merged.lookup name = none ∨
      ∃ child node, own.lookup name = some child ∧ merged.lookup name = some node ∧
        ((inherited.lookup name = none ∨ type.find? name = none) ∧ node = child ∨
          ∃ parent p first, inherited.lookup name = some parent ∧ type.find? name = some p ∧
            property rules type.name (place ++ "." ++ name) p parent child = .ok (node, first) ∧
            (first.any = true → stale.any = true)) := by
  induction own generalizing merged stale with
  | nil =>
    cases h
    exact .inl ⟨rfl, rfl⟩
  | cons e rest ih =>
    obtain ⟨k, child⟩ := e
    obtain ⟨node, first, nodes, others, hfirst, hrest, rfl, rfl⟩ := properties_cons_ok h
    rw [List.lookup_cons, List.lookup_cons]
    cases hname : name == k with
    | true =>
      obtain rfl : name = k := eq_of_beq hname
      refine .inr ⟨child, node, rfl, rfl, ?_⟩
      obtain ⟨parent, p, hparent, hfind, hproperty⟩ | ⟨hnone, rfl, -⟩ := hfirst
      · exact .inr ⟨parent, p, first, hparent, hfind, hproperty,
          fun hany => by rw [Totals.any_add, hany, Bool.true_or]⟩
      · exact .inl ⟨hnone, rfl⟩
    | false =>
      obtain hnone | ⟨c, n, hc, hn, htaken | ⟨parent, p, first, hp, hq, hproperty, hany⟩⟩ := ih hrest
      · exact .inl hnone
      · exact .inr ⟨c, n, hc, hn, .inl htaken⟩
      · exact .inr ⟨c, n, hc, hn, .inr ⟨parent, p, first, hp, hq, hproperty,
          fun h => by rw [Totals.any_add, hany h, Bool.or_true]⟩⟩

/-! ## Nodes -/

/-- The properties are in order. -/
def Tidy (n : Node) : Prop := Keyed.Sorted (n.properties?.getD [])

theorem tidy_of_ordered {n : Node} (h : n.isOrdered = true) : Tidy n := Node.properties_sorted h

theorem property?_eq_lookup (n : Node) (name : String) :
    n.property? name = (n.properties?.getD []).lookup name := by
  unfold Node.property?
  cases n.properties? <;> rfl

theorem property?_joined {info : Info} {declared : List String} {parent : Node}
    (hparent : Tidy parent) (merged : List (String × Node)) (name : String) :
    (joined info declared parent merged).property? name =
      (merged.lookup name).or (parent.property? name) := by
  rw [property?_eq_lookup parent, ← Keyed.lookup_fillFrom merged hparent]
  rfl

theorem property?_of_joined {info : Info} {declared : List String} {parent value : Node}
    {own : List (String × Node)} {name : String} (hordered : parent.isOrdered = true)
    (h : (joined info declared parent own).property? name = some value) :
    own.lookup name = some value ∨ parent.property? name = some value := by
  rw [property?_joined (tidy_of_ordered hordered), Option.or_eq_some_iff] at h
  exact h.imp_right And.right

theorem property?_of_backfill {parent child value : Node} {name : String}
    (hordered : parent.isOrdered = true)
    (h : (backfill parent child).property? name = some value) :
    child.property? name = some value ∨ parent.property? name = some value := by
  cases child with
  | simple | list | set | map => cases parent <;> exact .inl h
  | complex info own declared =>
    cases parent with
    | simple | list | set | map => exact .inl h
    | complex => exact property?_of_joined hordered h

/-- A declared property comes from the side that has it, or is merged from both. -/
theorem complex_property? {place name : String} {p : Property} {parent child node : Node}
    (hfind : type.find? name = some p) (hparent : Tidy parent)
    (h : complex rules place type parent child = .ok (node, stale)) :
    child.property? name = none ∧ node.property? name = parent.property? name ∨
      parent.property? name = none ∧ node.property? name = child.property? name ∨
      ∃ a c b first, parent.property? name = some a ∧ child.property? name = some c ∧
        node.property? name = some b ∧
        property rules type.name (place ++ "." ++ name) p a c = .ok (b, first) ∧
        (first.any = true → stale.any = true) := by
  obtain ⟨-, info, own, declared, merged, rfl, hmerged, rfl⟩ := complex_ok h
  have hchild : (Node.complex info own declared).property? name = own.lookup name := rfl
  rw [property?_joined hparent, hchild, property?_eq_lookup parent]
  obtain ⟨hown, hnone⟩ | ⟨c, b, hown, hb, ⟨hnone, rfl⟩ | ⟨a, q, first, ha, hq, hproperty, hany⟩⟩ :=
    properties_lookup name hmerged
  · exact .inl ⟨hown, by rw [hnone, Option.none_or]⟩
  · have hnone := hnone.resolve_right (by simp [hfind])
    exact .inr (.inl ⟨hnone, by rw [hown, hb, Option.some_or]⟩)
  · obtain rfl : p = q := Option.some.inj (hfind.symm.trans hq)
    exact .inr (.inr ⟨a, c, b, first, ha, hown, by rw [hb, Option.some_or], hproperty, hany⟩)

theorem complex_tidy {place : String} {parent child node : Node} (hchild : Tidy child)
    (h : complex rules place type parent child = .ok (node, stale)) : Tidy node := by
  obtain ⟨-, info, own, declared, merged, rfl, hmerged, rfl⟩ := complex_ok h
  exact Keyed.sorted_fillFrom _ ((Keyed.sorted_congr (properties_names hmerged)).2 hchild)

theorem complex_property {place name : String} {p : Property} {parent child node : Node}
    (hfind : type.find? name = some p) (hp : Overridden p) (hparent : Tidy parent)
    (hchild : Tidy child) (h : complex rules place type parent child = .ok (node, stale)) :
    Tidy node ∧
      (∀ b, node.property? name = some b →
        child.property? name = some b ∨ parent.property? name = some b) ∧
      ∀ a c, parent.property? name = some a → child.property? name = some c → isStale a c = true →
        stale.any = true := by
  refine ⟨complex_tidy hchild h, ?_⟩
  obtain ⟨hnone, hnode⟩ | ⟨hnone, hnode⟩ | ⟨a, c, b, first, ha, hc, hb, hproperty, hany⟩ :=
    complex_property? hfind hparent h
  · rw [hnode, hnone]
    exact ⟨fun b hb => .inr hb, by rintro _ _ - ⟨⟩⟩
  · rw [hnode, hnone]
    exact ⟨fun b hb => .inl hb, by rintro _ _ ⟨⟩⟩
  · obtain ⟨horigin, hcount⟩ := property_overridden hp hproperty
    rw [ha, hc, hb]
    refine ⟨fun n hn => ?_, ?_⟩
    · cases hn
      rcases horigin with rfl | rfl
      · exact .inr rfl
      · exact .inl rfl
    · rintro _ _ ⟨⟩ ⟨⟩ hpair
      exact hany (hcount hpair)

/-! ## Levels -/

theorem levelsFrom_property {name : String} {p : Property} (hfind : type.find? name = some p)
    (hp : Overridden p) {above : Option Node} {levels : List (Option Node)} {merged : Node}
    (habove : ∀ n, above = some n → Tidy n) (hlevels : ∀ n, some n ∈ levels → Tidy n)
    (h : levelsFrom rules type above levels = .ok (some merged, stale)) :
    Tidy merged ∧ ∀ b, merged.property? name = some b →
      ∃ n, (above = some n ∨ some n ∈ levels) ∧ n.property? name = some b := by
  apply levelsFrom_induction (motive := fun merged => Tidy merged ∧
    ∀ b, merged.property? name = some b →
      ∃ n, (above = some n ∨ some n ∈ levels) ∧ n.property? name = some b) _ _ _ h
  · rintro parent child node total ⟨hparent, hparentOrigin⟩ ⟨hchild, hchildOrigin⟩ hnode
    obtain ⟨hnodeTidy, horigin, -⟩ := complex_property hfind hp hparent hchild hnode
    refine ⟨hnodeTidy, fun b hb => ?_⟩
    rcases horigin b hb with hb | hb
    · exact hchildOrigin b hb
    · exact hparentOrigin b hb
  · intro n hn
    exact ⟨habove n hn, fun b hb => ⟨n, .inl hn, hb⟩⟩
  · intro n hn
    exact ⟨hlevels n hn, fun b hb => ⟨n, .inr hn, hb⟩⟩

end ScopedConfig.Merge
