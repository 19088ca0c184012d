import ScopedConfig.Merge
import ScopedConfig.Proofs.Except

/-!
# What a merge does

What it takes for each step of a merge to succeed, and what it gives then.
-/

namespace ScopedConfig.Merge

open Schema ScopedConfig.Except

/-! ## Before the values -/

def Verdict.stale : Verdict → Totals
  | .settled _ stale | .undecided stale => stale

theorem checkKinds_ok {place : String} {p : Property} {parent child : Node} {u : Unit}
    (h : checkKinds place p parent child = .ok u) : parent.kind = p.kind ∧ child.kind = p.kind := by
  unfold checkKinds at h
  by_cases hp : parent.kind = p.kind
  · by_cases hc : child.kind = p.kind
    · exact ⟨hp, hc⟩
    · simp [hp, hc] at h
  · simp [hp] at h

/-- A pair that is let in has the kind of the property. It is counted unless one side is absent, and
then the child may be dropped. -/
theorem settle_ok {rules : Rules} {owner place : String} {p : Property} {parent child : Node}
    {v : Verdict} (h : settle rules owner place p parent child = .ok v) :
    (parent.kind = p.kind ∧ child.kind = p.kind) ∧
      (child.isAbsent = true ∧ v = .settled parent .zero ∨
        parent.isAbsent = true ∧ v = .settled child .zero ∨
        (child.isAbsent = false ∧ parent.isAbsent = false) ∧
          v.stale = (judge p.policy.stale parent child).2 ∧
          (v = .settled parent v.stale ∨ v = .undecided v.stale)) := by
  obtain ⟨_, -, h⟩ := bind_eq_ok.1 h
  obtain ⟨_, hkinds, h⟩ := bind_eq_ok.1 h
  refine ⟨checkKinds_ok hkinds, ?_⟩
  cases hc : child.isAbsent with
  | true =>
    simp only [hc, if_true, pure_eq_ok] at h
    exact .inl ⟨rfl, h.symm⟩
  | false =>
    cases hp : parent.isAbsent with
    | true =>
      simp only [hc, hp, Bool.false_eq_true, if_true, if_false, pure_eq_ok] at h
      exact .inr (.inl ⟨rfl, h.symm⟩)
    | false =>
      simp only [hc, hp, Bool.false_eq_true, if_false, pure_eq_ok] at h
      subst h
      refine .inr (.inr ⟨⟨rfl, rfl⟩, ?_⟩)
      cases (judge p.policy.stale parent child).1 <;> simp [Verdict.stale]

theorem judge_fresh {policy : StalePolicy} {parent child : Node}
    (h : isStale parent child = false) : judge policy parent child = (false, .zero) := by
  simp [judge, h]

theorem settle_fresh {rules : Rules} {owner place : String} {p : Property} {parent child : Node}
    {v : Verdict} (hfresh : isStale parent child = false)
    (h : settle rules owner place p parent child = .ok v) : v.stale = .zero := by
  obtain ⟨-, ⟨-, rfl⟩ | ⟨-, rfl⟩ | ⟨-, hstale, -⟩⟩ := settle_ok h
  · rfl
  · rfl
  · rw [hstale, judge_fresh hfresh]

/-! ## Choices -/

theorem require_ok {s : Schema} {name : String} {r : Record} (h : s.require name = .ok r) :
    s.find? name = some r := by
  unfold Schema.require at h
  cases hr : s.find? name <;> simp_all

theorem chooseComplex_combine {rules : Rules} {place : String} {p : Property} {parent : Node}
    {type : Record} (h : chooseComplex rules place p parent = .ok (.combine type)) :
    p.polymorphic = false ∧ rules.schema.find? p.typeName = some type := by
  unfold chooseComplex at h
  cases hpolicy : effectivePolicy p parent with
  | useChild | useParent => simp [hpolicy] at h
  | strategy name => simp [hpolicy, Error.misuse] at h
  | merge =>
    cases hp : p.polymorphic with
    | true => simp [hpolicy, hp, Error.misuse] at h
    | false =>
      simp only [hpolicy, hp, Bool.false_eq_true, if_false, map_eq_ok] at h
      obtain ⟨r, hr, h⟩ := h
      cases h
      exact ⟨rfl, require_ok hr⟩

theorem chooseItem_combine {rules : Rules} {place : String} {p : Property} {policy : ItemPolicy}
    {type : Record} (h : chooseItem rules place p policy = .ok (.combine type)) :
    p.polymorphic = false ∧ p.itemKind = .complex ∧ rules.schema.find? p.typeName = some type := by
  unfold chooseItem at h
  cases policy with
  | useChild | useParent => simp at h
  | merge =>
    cases hp : p.polymorphic with
    | true => simp [hp, Error.misuse] at h
    | false =>
      cases hk : p.itemKind with
      | simple => simp [hk, Error.misuse] at h
      | complex =>
        simp only [hp, hk, bne_self_eq_false, Bool.or_self, Bool.false_eq_true, if_false,
          map_eq_ok] at h
        obtain ⟨r, hr, h⟩ := h
        cases h
        exact ⟨rfl, rfl, require_ok hr⟩

theorem checkComplex_ok {place : String} {parent child : Node} {u : Unit}
    (h : checkComplex place parent child = .ok u) :
    parent.kind = .complex ∧ child.kind = .complex := by
  unfold checkComplex at h
  by_cases hk : parent.kind = .complex ∧ child.kind = .complex
  · exact hk
  · simp [hk] at h

/-! ## One pair -/

/-- What the values of a pair that is not settled merge to, and the stale pairs below it. -/
def ValuesTo (rules : Rules) (place : String) (p : Property) (parent : Node) :
    Node → Node → Totals → Prop
  | .simple info text, node, inner =>
    mergeText rules place (effectivePolicy p parent) parent info text = .ok node ∧ inner = .zero
  | .complex info own declared, node, inner =>
    chooseComplex rules place p parent = .ok .child ∧ node = .complex info own declared ∧
      inner = .zero ∨
      chooseComplex rules place p parent = .ok .parent ∧ node = parent ∧ inner = .zero ∨
      ∃ type merged, chooseComplex rules place p parent = .ok (.combine type) ∧
        properties rules place type (parent.properties?.getD []) own = .ok (merged, inner) ∧
        node = joined info declared parent merged
  | .list info own, node, inner =>
    node = (if effectivePolicy p parent = .useParent then parent else .list info own) ∧
      inner = .zero
  | .set info none, node, inner => node = .set info none ∧ inner = .zero
  | .set info (some own), node, inner =>
    ∃ above keyed merged, keyItems rules place p (parent.items?.getD []) = .ok above ∧
      keyItems rules place p own = .ok keyed ∧
      items rules place p (effectiveItemPolicy p parent) above [] (keyed.map Prod.fst) own =
        .ok (merged, inner) ∧
      node = .set info (some (merged ++ (survivors p above (keyed.map Prod.fst)).map Prod.snd))
  | .map info none, node, inner => node = .map info none ∧ inner = .zero
  | .map info (some own), node, inner =>
    ∃ merged, checkEntries place p (parent.entries?.getD []) = .ok () ∧
      checkEntries place p own = .ok () ∧
      entries rules place p (effectiveItemPolicy p parent) (parent.entries?.getD []) own =
        .ok (merged, inner) ∧
      node = .map info (some (Keyed.fillFrom
        (survivors p (parent.entries?.getD []) (own.map Prod.fst)) merged))

section
variable {rules : Rules} {owner place : String} {p : Property} {parent child node : Node}
  {stale : Totals}

theorem settled_or_values {values : Totals → Except Error (Node × Totals)}
    (h : (do
      match ← settle rules owner place p parent child with
      | .settled node stale => return (node, stale)
      | .undecided stale => values stale) = .ok (node, stale))
    (hvalues : ∀ first, values first = .ok (node, stale) →
      ∃ inner, ValuesTo rules place p parent child node inner ∧ stale = first + inner) :
    settle rules owner place p parent child = .ok (.settled node stale) ∨
      ∃ first inner, settle rules owner place p parent child = .ok (.undecided first) ∧
        ValuesTo rules place p parent child node inner ∧ stale = first + inner := by
  obtain ⟨v, hv, h⟩ := bind_eq_ok.1 h
  cases v with
  | settled n t =>
    obtain ⟨rfl, rfl⟩ := pure_pair_eq_ok.1 h
    exact .inl hv
  | undecided first =>
    obtain ⟨inner, hinner, hstale⟩ := hvalues first h
    exact .inr ⟨first, inner, hv, hinner, hstale⟩

theorem pure_values {n : Node} {first : Totals}
    (h : (pure (n, first) : Except Error (Node × Totals)) = .ok (node, stale)) :
    node = n ∧ stale = first + .zero := by
  obtain ⟨rfl, rfl⟩ := pure_pair_eq_ok.1 h
  exact ⟨rfl, (Totals.add_zero _).symm⟩

theorem settled_or_pure {n : Node}
    (h : (do
      match ← settle rules owner place p parent child with
      | .settled node stale => return (node, stale)
      | .undecided stale => return (n, stale)) = .ok (node, stale))
    (hn : ValuesTo rules place p parent child n .zero) :
    settle rules owner place p parent child = .ok (.settled node stale) ∨
      ∃ first inner, settle rules owner place p parent child = .ok (.undecided first) ∧
        ValuesTo rules place p parent child node inner ∧ stale = first + inner := by
  refine settled_or_values h fun first h => ?_
  obtain ⟨rfl, hstale⟩ := pure_values h
  exact ⟨.zero, hn, hstale⟩

/-- A pair is settled before its values, or its values are merged. -/
theorem property_ok (h : property rules owner place p parent child = .ok (node, stale)) :
    settle rules owner place p parent child = .ok (.settled node stale) ∨
      ∃ first inner, settle rules owner place p parent child = .ok (.undecided first) ∧
        ValuesTo rules place p parent child node inner ∧ stale = first + inner := by
  cases child with
  | simple info text =>
    unfold property at h
    refine settled_or_values h fun first h => ?_
    obtain ⟨n, hn, h⟩ := bind_eq_ok.1 h
    obtain ⟨rfl, hstale⟩ := pure_values h
    exact ⟨.zero, ⟨hn, rfl⟩, hstale⟩
  | complex info own declared =>
    unfold property at h
    refine settled_or_values h fun first h => ?_
    obtain ⟨choice, hchoice, h⟩ := bind_eq_ok.1 h
    cases choice with
    | child =>
      obtain ⟨hnode, hstale⟩ := pure_values h
      exact ⟨.zero, .inl ⟨hchoice, hnode, rfl⟩, hstale⟩
    | parent =>
      obtain ⟨hnode, hstale⟩ := pure_values h
      exact ⟨.zero, .inr (.inl ⟨hchoice, hnode, rfl⟩), hstale⟩
    | combine type =>
      obtain ⟨⟨merged, inner⟩, hmerged, h⟩ := bind_eq_ok.1 h
      obtain ⟨rfl, rfl⟩ := pure_pair_eq_ok.1 h
      exact ⟨inner, .inr (.inr ⟨type, merged, hchoice, hmerged, rfl⟩), rfl⟩
  | list info own =>
    unfold property at h
    exact settled_or_pure h ⟨rfl, rfl⟩
  | set info own =>
    cases own with
    | none =>
      unfold property at h
      exact settled_or_pure h ⟨rfl, rfl⟩
    | some own =>
      unfold property at h
      refine settled_or_values h fun first h => ?_
      obtain ⟨above, habove, h⟩ := bind_eq_ok.1 h
      obtain ⟨keyed, hkeyed, h⟩ := bind_eq_ok.1 h
      obtain ⟨⟨merged, inner⟩, hmerged, h⟩ := bind_eq_ok.1 h
      obtain ⟨rfl, rfl⟩ := pure_pair_eq_ok.1 h
      exact ⟨inner, ⟨above, keyed, merged, habove, hkeyed, hmerged, rfl⟩, rfl⟩
  | map info own =>
    cases own with
    | none =>
      unfold property at h
      exact settled_or_pure h ⟨rfl, rfl⟩
    | some own =>
      unfold property at h
      refine settled_or_values h fun first h => ?_
      obtain ⟨_, habove, h⟩ := bind_eq_ok.1 h
      obtain ⟨_, hown, h⟩ := bind_eq_ok.1 h
      obtain ⟨⟨merged, inner⟩, hmerged, h⟩ := bind_eq_ok.1 h
      obtain ⟨rfl, rfl⟩ := pure_pair_eq_ok.1 h
      exact ⟨inner, ⟨merged, habove, hown, hmerged, rfl⟩, rfl⟩

end

/-! ## Lists of nodes -/

theorem properties_cons_ok {rules : Rules} {place : String} {type : Record}
    {inherited : List (String × Node)} {name : String} {child : Node}
    {rest merged : List (String × Node)} {stale : Totals}
    (h : properties rules place type inherited ((name, child) :: rest) = .ok (merged, stale)) :
    ∃ node first nodes others,
      ((∃ parent p, inherited.lookup name = some parent ∧ type.find? name = some p ∧
          property rules type.name (place ++ "." ++ name) p parent child = .ok (node, first)) ∨
        (inherited.lookup name = none ∨ type.find? name = none) ∧ node = child ∧ first = .zero) ∧
      properties rules place type inherited rest = .ok (nodes, others) ∧
      merged = (name, node) :: nodes ∧ stale = first + others := by
  rw [properties] at h
  cases hparent : inherited.lookup name with
  | none =>
    simp only [hparent, bind_eq_ok, pure_eq_ok, Except.ok.injEq] at h
    obtain ⟨_, rfl, ⟨nodes, others⟩, hrest, h⟩ := h
    obtain ⟨rfl, rfl⟩ := Prod.mk.inj h
    exact ⟨child, .zero, nodes, others, .inr ⟨.inl rfl, rfl, rfl⟩, hrest, rfl, rfl⟩
  | some parent =>
    cases hfind : type.find? name with
    | none =>
      simp only [hparent, hfind, bind_eq_ok, pure_eq_ok, Except.ok.injEq] at h
      obtain ⟨_, rfl, ⟨nodes, others⟩, hrest, h⟩ := h
      obtain ⟨rfl, rfl⟩ := Prod.mk.inj h
      exact ⟨child, .zero, nodes, others, .inr ⟨.inr rfl, rfl, rfl⟩, hrest, rfl, rfl⟩
    | some p =>
      simp only [hparent, hfind, bind_eq_ok, pure_eq_ok] at h
      obtain ⟨⟨node, first⟩, hfirst, ⟨nodes, others⟩, hrest, h⟩ := h
      obtain ⟨rfl, rfl⟩ := Prod.mk.inj h
      exact ⟨node, first, nodes, others, .inl ⟨parent, p, rfl, rfl, hfirst⟩, hrest, rfl, rfl⟩

/-! ## Items and entries -/

theorem item_none {rules : Rules} {place : String} {p : Property} {policy : ItemPolicy}
    {key : String} {child : Node} :
    item rules place p policy none key child = .ok (added p child, .zero) := by
  cases child <;> rfl

/-- An item is kept or dropped if the parent has none with its key. Two items with one key are
combined as the policy says. -/
theorem item_ok {rules : Rules} {place : String} {p : Property} {policy : ItemPolicy}
    {above kept : Option Node} {key : String} {child : Node} {stale : Totals}
    (h : item rules place p policy above key child = .ok (kept, stale)) :
    above = none ∧ kept = added p child ∧ stale = .zero ∨
      ∃ parent, above = some parent ∧
        (kept = some parent ∧ stale = .zero ∨ kept = some (backfill parent child) ∧ stale = .zero ∨
          ∃ type info own declared merged, child = .complex info own declared ∧
            chooseItem rules (place ++ "[" ++ key ++ "]") p policy = .ok (.combine type) ∧
            properties rules (place ++ "[" ++ key ++ "]") type (parent.properties?.getD []) own =
              .ok (merged, stale) ∧
            kept = some (joined info declared parent merged)) := by
  cases above with
  | none =>
    obtain ⟨rfl, rfl⟩ := Prod.mk.inj (Except.ok.inj (item_none.symm.trans h))
    exact .inl ⟨rfl, rfl, rfl⟩
  | some parent =>
    refine .inr ⟨parent, rfl, ?_⟩
    cases child with
    | complex info own declared =>
      rw [item] at h
      obtain ⟨choice, hchoice, h⟩ := bind_eq_ok.1 h
      cases choice with
      | parent =>
        obtain ⟨rfl, rfl⟩ := pure_pair_eq_ok.1 h
        exact .inl ⟨rfl, rfl⟩
      | child =>
        obtain ⟨rfl, rfl⟩ := pure_pair_eq_ok.1 h
        exact .inr (.inl ⟨rfl, rfl⟩)
      | combine type =>
        obtain ⟨_, -, h⟩ := bind_eq_ok.1 h
        obtain ⟨⟨merged, inner⟩, hmerged, h⟩ := bind_eq_ok.1 h
        obtain ⟨rfl, rfl⟩ := pure_pair_eq_ok.1 h
        exact .inr (.inr ⟨type, info, own, declared, merged, rfl, hchoice, hmerged, rfl⟩)
    | simple | list | set | map =>
      simp only [item] at h
      obtain ⟨choice, -, h⟩ := bind_eq_ok.1 h
      cases choice with
      | parent =>
        obtain ⟨rfl, rfl⟩ := pure_pair_eq_ok.1 h
        exact .inl ⟨rfl, rfl⟩
      | child =>
        obtain ⟨rfl, rfl⟩ := pure_pair_eq_ok.1 h
        exact .inr (.inl ⟨by simp [backfill], rfl⟩)
      | combine type =>
        obtain ⟨_, hcheck, -⟩ := bind_eq_ok.1 h
        simpa [Node.kind] using (checkComplex_ok hcheck).2

theorem items_cons_ok {rules : Rules} {place : String} {p : Property} {policy : ItemPolicy}
    {above : List (String × Node)} {seen keys : List String} {key : String} {child : Node}
    {rest nodes : List Node} {stale : Totals}
    (h : items rules place p policy above seen (key :: keys) (child :: rest) = .ok (nodes, stale)) :
    seen.contains key = true ∧
      items rules place p policy above seen keys rest = .ok (nodes, stale) ∨
      seen.contains key = false ∧ ∃ kept first others more,
        item rules place p policy (above.lookup key) key child = .ok (kept, first) ∧
        items rules place p policy above (key :: seen) keys rest = .ok (more, others) ∧
        nodes = kept.toList ++ more ∧ stale = first + others := by
  rw [items] at h
  cases hseen : seen.contains key with
  | true =>
    rw [if_pos hseen] at h
    exact .inl ⟨rfl, h⟩
  | false =>
    simp only [hseen, Bool.false_eq_true, if_false] at h
    obtain ⟨⟨kept, first⟩, hitem, h⟩ := bind_eq_ok.1 h
    obtain ⟨⟨more, others⟩, hrest, h⟩ := bind_eq_ok.1 h
    obtain ⟨rfl, rfl⟩ := pure_pair_eq_ok.1 h
    exact .inr ⟨rfl, kept, first, others, more, hitem, hrest, rfl, rfl⟩

theorem entries_cons_ok {rules : Rules} {place : String} {p : Property} {policy : ItemPolicy}
    {above : List (String × Node)} {key : String} {child : Node}
    {rest merged : List (String × Node)} {stale : Totals}
    (h : entries rules place p policy above ((key, child) :: rest) = .ok (merged, stale)) :
    ∃ kept first others more,
      item rules place p policy (above.lookup key) key child = .ok (kept, first) ∧
      entries rules place p policy above rest = .ok (more, others) ∧
      merged = (kept.map fun n => (key, n)).toList ++ more ∧ stale = first + others := by
  rw [entries] at h
  obtain ⟨⟨kept, first⟩, hitem, h⟩ := bind_eq_ok.1 h
  obtain ⟨⟨more, others⟩, hrest, h⟩ := bind_eq_ok.1 h
  obtain ⟨rfl, rfl⟩ := pure_pair_eq_ok.1 h
  exact ⟨kept, first, others, more, hitem, hrest, rfl, rfl⟩

/-! ## Levels -/

theorem complex_ok {rules : Rules} {place : String} {type : Record} {parent child node : Node}
    {stale : Totals} (h : complex rules place type parent child = .ok (node, stale)) :
    parent.kind = .complex ∧ ∃ info own declared merged, child = .complex info own declared ∧
      properties rules place type (parent.properties?.getD []) own = .ok (merged, stale) ∧
      node = joined info declared parent merged := by
  obtain ⟨_, hcheck, h⟩ := bind_eq_ok.1 h
  obtain ⟨hparent, hchild⟩ := checkComplex_ok hcheck
  cases child with
  | complex info own declared =>
    obtain ⟨⟨merged, total⟩, hmerged, h⟩ := bind_eq_ok.1 h
    obtain ⟨rfl, rfl⟩ := pure_pair_eq_ok.1 h
    exact ⟨hparent, info, own, declared, merged, rfl, hmerged, rfl⟩
  | simple | list | set | map => simp [Node.kind] at hchild

theorem levelsFrom_append (rules : Rules) (type : Record) (merged : Option Node)
    (first rest : List (Option Node)) :
    levelsFrom rules type merged (first ++ rest) = (do
      let (upper, above) ← levelsFrom rules type merged first
      let (node, below) ← levelsFrom rules type upper rest
      return (node, above + below)) := by
  induction first generalizing merged with
  | nil =>
    cases h : levelsFrom rules type merged rest <;>
      simp [levelsFrom, h, bind, Except.bind, pure, Except.pure]
  | cons level first ih =>
    match merged, level with
    | _, none => simp only [List.cons_append, levelsFrom, ih]
    | none, some level => simp only [List.cons_append, levelsFrom, ih]
    | some parent, some level =>
      simp only [List.cons_append, levelsFrom, ih]
      cases complex rules type.name type parent level with
      | error e => rfl
      | ok first =>
        obtain ⟨node, stale⟩ := first
        cases hf : levelsFrom rules type (some node) first with
        | error e => simp [hf, bind, Except.bind]
        | ok upper =>
          cases hr : levelsFrom rules type upper.1 rest <;>
            simp [hf, hr, bind, Except.bind, pure, Except.pure, Totals.add_assoc]

/-- What holds of every level and stays when a level is merged in holds of the merge of all. -/
theorem levelsFrom_invariant {rules : Rules} {type : Record} {motive : Node → Prop}
    {above : Option Node} {levels : List (Option Node)} {merged : Node} {stale : Totals}
    (step : ∀ {parent child node : Node} {stale : Totals}, motive parent → some child ∈ levels →
      complex rules type.name type parent child = .ok (node, stale) → motive node)
    (habove : ∀ n, above = some n → motive n) (hlevels : ∀ n, some n ∈ levels → motive n)
    (h : levelsFrom rules type above levels = .ok (some merged, stale)) : motive merged := by
  induction levels generalizing above stale with
  | nil =>
    cases h
    exact habove merged rfl
  | cons level rest ih =>
    have hrest : ∀ n, some n ∈ rest → motive n := fun n hn => hlevels n (List.mem_cons_of_mem _ hn)
    have hstep {parent child node : Node} {stale : Totals} (hparent : motive parent)
        (hchild : some child ∈ rest) := @step parent child node stale hparent
          (List.mem_cons_of_mem _ hchild)
    match above, level with
    | above, none =>
      rw [levelsFrom] at h
      exact ih hstep habove hrest h
    | none, some level =>
      rw [levelsFrom] at h
      exact ih hstep (fun n hn => hlevels n (hn ▸ List.mem_cons_self)) hrest h
    | some parent, some level =>
      rw [levelsFrom] at h
      obtain ⟨⟨node, first⟩, hnode, h⟩ := bind_eq_ok.1 h
      obtain ⟨⟨result, others⟩, hothers, h⟩ := bind_eq_ok.1 h
      cases h
      have hmotive : motive node := step (habove parent rfl) List.mem_cons_self hnode
      exact ih hstep (fun n hn => Option.some.inj hn ▸ hmotive) hrest hothers

theorem levelsFrom_induction {rules : Rules} {type : Record} {motive : Node → Prop}
    (step : ∀ {parent child node : Node} {stale : Totals}, motive parent → motive child →
      complex rules type.name type parent child = .ok (node, stale) → motive node)
    {above : Option Node} {levels : List (Option Node)} {merged : Node} {stale : Totals}
    (habove : ∀ n, above = some n → motive n) (hlevels : ∀ n, some n ∈ levels → motive n)
    (h : levelsFrom rules type above levels = .ok (some merged, stale)) : motive merged :=
  levelsFrom_invariant (fun hparent hchild => step hparent (hlevels _ hchild)) habove hlevels h

end ScopedConfig.Merge
