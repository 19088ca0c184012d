import ScopedConfig.Proofs.Checked
import ScopedConfig.Proofs.ItemKey
import ScopedConfig.Proofs.Run

/-!
# Versions do not steer merges

Where stale children are merged like fresh ones, versions and parent records are carried along and
decide nothing. Nodes that are given other metadata before a merge come to what the merge of the
nodes as they were comes to with that metadata, as long as scopes and type names stay.
-/

namespace ScopedConfig

namespace Except

variable {ε α β γ δ : Type}

/-- Both fail with the same error, or both succeed and the results are related. -/
inductive Related (r : α → β → Prop) : Except ε α → Except ε β → Prop where
  | error (e : ε) : Related r (.error e) (.error e)
  | ok {a : α} {b : β} (h : r a b) : Related r (.ok a) (.ok b)

namespace Related

variable {r : α → β → Prop} {q : γ → δ → Prop}

protected theorem bind {x : Except ε α} {y : Except ε β} {f : α → Except ε γ} {g : β → Except ε δ}
    (h : Related r x y) (hnext : ∀ {a b}, r a b → Related q (f a) (g b)) :
    Related q (x >>= f) (y >>= g) := by
  cases h with
  | error e => exact .error e
  | ok h => exact hnext h

theorem bind_same {x : Except ε α} {f : α → Except ε γ} {g : α → Except ε δ}
    (hnext : ∀ a, x = .ok a → Related q (f a) (g a)) : Related q (x >>= f) (x >>= g) := by
  cases x with
  | error e => exact .error e
  | ok a => exact hnext a rfl

theorem alike {x : Except ε α} {y z : Except ε β} (hy : Related r x y) (hz : Related r x z) :
    (∃ e, y = .error e ∧ z = .error e) ∨ ∃ a b c, y = .ok b ∧ z = .ok c ∧ r a b ∧ r a c := by
  cases hy with
  | error e =>
    cases hz
    exact .inl ⟨e, rfl, rfl⟩
  | ok hb =>
    cases hz with
    | ok hc => exact .inr ⟨_, _, _, rfl, rfl, hb, hc⟩

end Related

end Except

/-! ## Other metadata -/

/-- Metadata may change, but not the scope and the type name. -/
structure Relabels (f : Info → Info) : Prop where
  definedAt : ∀ i, (f i).definedAt = i.definedAt
  typeName : ∀ i, (f i).typeName = i.typeName

namespace Node

variable {f : Info → Info}

theorem properties_mapInfo (n : Node) :
    (n.mapInfo f).properties?.getD [] = mapInfoFields f (n.properties?.getD []) := by
  rw [properties?_mapInfo]
  cases n.properties? <;> rfl

theorem items_mapInfo (n : Node) :
    (n.mapInfo f).items?.getD [] = mapInfoItems f (n.items?.getD []) := by
  rw [items?_mapInfo]
  cases n.items? <;> rfl

theorem entries_mapInfo (n : Node) :
    (n.mapInfo f).entries?.getD [] = mapInfoFields f (n.entries?.getD []) := by
  rw [entries?_mapInfo]
  cases n.entries? <;> rfl

theorem mapInfoFields_append (own others : List (String × Node)) :
    mapInfoFields f (own ++ others) = mapInfoFields f own ++ mapInfoFields f others := by
  simp [mapInfoFields_eq]

theorem mapInfoItems_append (own others : List Node) :
    mapInfoItems f (own ++ others) = mapInfoItems f own ++ mapInfoItems f others := by
  induction own with
  | nil => rfl
  | cons n rest ih => simp [mapInfoItems, ih]

theorem values_mapInfoFields (own : List (String × Node)) :
    (mapInfoFields f own).map Prod.snd = mapInfoItems f (own.map Prod.snd) := by
  induction own with
  | nil => rfl
  | cons e rest ih => simp [mapInfoFields, mapInfoItems, ih]

theorem mapInfoFields_insert (name : String) (n : Node) (own : List (String × Node)) :
    mapInfoFields f (Keyed.insert name n own) =
      Keyed.insert name (n.mapInfo f) (mapInfoFields f own) := by
  induction own with
  | nil => rfl
  | cons e rest ih =>
    obtain ⟨k, m⟩ := e
    cases h : compare name k <;> simp [Keyed.insert, mapInfoFields, h, ih]

theorem mapInfoFields_fillFrom (extra own : List (String × Node)) :
    mapInfoFields f (Keyed.fillFrom extra own) =
      Keyed.fillFrom (mapInfoFields f extra) (mapInfoFields f own) := by
  suffices ∀ acc, mapInfoFields f (extra.foldl (fun acc p =>
        if (own.lookup p.1).isSome then acc else Keyed.insert p.1 p.2 acc) acc) =
      (mapInfoFields f extra).foldl (fun acc p =>
        if ((mapInfoFields f own).lookup p.1).isSome then acc else Keyed.insert p.1 p.2 acc)
          (mapInfoFields f acc) from this own
  induction extra with
  | nil => exact fun _ => rfl
  | cons e rest ih =>
    intro acc
    obtain ⟨k, m⟩ := e
    have hlookup : ((mapInfoFields f own).lookup k).isSome = (own.lookup k).isSome := by
      simp [lookup_mapInfoFields]
    rw [List.foldl_cons, ih, mapInfoFields, List.foldl_cons, hlookup]
    cases (own.lookup k).isSome with
    | true => rfl
    | false => simp [mapInfoFields_insert]

end Node

namespace Merge

open Schema Node ScopedConfig.Except

variable {f : Info → Info} {rules : Rules} {p : Property}

/-! ## Parts of a merge -/

theorem defaultsOnly_mapInfo (hf : Relabels f) (n : Node) :
    defaultsOnly (n.mapInfo f) = defaultsOnly n := by
  simp [defaultsOnly, definedAt, info_mapInfo, hf.definedAt]

theorem effectivePolicy_mapInfo (hf : Relabels f) (parent : Node) :
    effectivePolicy p (parent.mapInfo f) = effectivePolicy p parent := by
  simp [effectivePolicy, defaultsOnly_mapInfo hf]

theorem effectiveItemPolicy_mapInfo (hf : Relabels f) (parent : Node) :
    effectiveItemPolicy p (parent.mapInfo f) = effectiveItemPolicy p parent := by
  simp [effectiveItemPolicy, defaultsOnly_mapInfo hf]

theorem chooseComplex_mapInfo (hf : Relabels f) (place : String) (parent : Node) :
    chooseComplex rules place p (parent.mapInfo f) = chooseComplex rules place p parent := by
  simp [chooseComplex, effectivePolicy_mapInfo hf]

theorem checkItemKind_mapInfo (hf : Relabels f) (place : String) (item : Node) :
    checkItemKind place p (item.mapInfo f) = checkItemKind place p item := by
  simp [checkItemKind, kind_mapInfo, definedAt, info_mapInfo, hf.definedAt]

theorem checkKinds_mapInfo (hf : Relabels f) (place : String) (parent child : Node) :
    checkKinds place p (parent.mapInfo f) (child.mapInfo f) = checkKinds place p parent child := by
  simp [checkKinds, kind_mapInfo, definedAt, info_mapInfo, hf.definedAt]

theorem checkComplex_mapInfo (hf : Relabels f) (place : String) (parent child : Node) :
    checkComplex place (parent.mapInfo f) (child.mapInfo f) = checkComplex place parent child := by
  simp [checkComplex, kind_mapInfo, definedAt, info_mapInfo, hf.definedAt]

theorem checkEntries_mapInfo (hf : Relabels f) (place : String) (own : List (String × Node)) :
    checkEntries place p (mapInfoFields f own) = checkEntries place p own := by
  unfold checkEntries
  induction own with
  | nil => rfl
  | cons e rest ih =>
    rw [List.forM_eq_forM] at ih ⊢
    simp only [mapInfoFields, List.forM_cons, checkItemKind_mapInfo hf, ih]

theorem itemKey_mapInfo (hf : Relabels f) {s : Schema} (place : String) (item : Node) :
    s.itemKey p place (item.mapInfo f) = s.itemKey p place item := by
  have hprint (n : Node) : (n.mapInfo f).fingerprint = n.fingerprint := by
    rw [fingerprint, fingerprintChars_mapInfo hf.typeName, fingerprint]
  have htype : (item.mapInfo f).typeName = item.typeName := by
    rw [typeName, info_mapInfo, hf.typeName, typeName]
  have hplace : (item.mapInfo f).definedAt = item.definedAt := by
    rw [definedAt, info_mapInfo, hf.definedAt, definedAt]
  unfold itemKey
  cases p.itemKind with
  | simple => simp [hprint]
  | complex =>
    cases p.polymorphic with
    | true =>
      cases hr : (s.find? item.typeName).bind Record.identity with
      | none => simp [htype, hr, hprint]
      | some identity =>
        cases hv : item.property? identity <;>
          simp [htype, hr, property?_mapInfo, hv, hplace, hprint]
    | false =>
      cases hr : s.require p.typeName with
      | error e => rfl
      | ok r =>
        cases hi : r.identity with
        | none => simp [bind, Except.bind, hi]
        | some identity =>
          cases hv : item.property? identity <;>
            simp [bind, Except.bind, hi, property?_mapInfo, hv, hplace, hprint]

theorem keyItems_related (hf : Relabels f) (place : String) (own : List Node) :
    Related (fun relabelled keyed => relabelled = mapInfoFields f keyed)
      (keyItems rules place p (mapInfoItems f own)) (keyItems rules place p own) := by
  induction own with
  | nil => exact .ok rfl
  | cons item rest ih =>
    rw [mapInfoItems, keyItems, keyItems, checkItemKind_mapInfo hf, itemKey_mapInfo hf]
    refine .bind_same fun _ _ => .bind_same fun key _ => ih.bind ?_
    rintro _ keyed rfl
    exact .ok rfl

theorem survivors_mapInfo (above : List (String × Node)) (keys : List String) :
    survivors p (mapInfoFields f above) keys = mapInfoFields f (survivors p above keys) := by
  unfold survivors
  cases p.policy.entryRemoved with
  | remove => rfl
  | add =>
    suffices ∀ acc, (mapInfoFields f above).foldl (fun kept e =>
          if keys.contains e.1 || (kept.lookup e.1).isSome then kept else kept ++ [e])
            (mapInfoFields f acc) =
        mapInfoFields f (above.foldl (fun kept e =>
          if keys.contains e.1 || (kept.lookup e.1).isSome then kept else kept ++ [e]) acc) from
      this []
    induction above with
    | nil => exact fun _ => rfl
    | cons e rest ih =>
      intro acc
      obtain ⟨k, n⟩ := e
      rw [mapInfoFields, List.foldl_cons, List.foldl_cons, ← ih]
      simp only [lookup_mapInfoFields, Option.isSome_map]
      split
      · rfl
      · rw [mapInfoFields_append]
        rfl

theorem added_mapInfo (child : Node) :
    added p (child.mapInfo f) = (added p child).map (mapInfo f) := by
  unfold added
  cases p.policy.entryAdded <;> rfl

theorem backfill_mapInfo (parent child : Node) :
    backfill (parent.mapInfo f) (child.mapInfo f) = (backfill parent child).mapInfo f := by
  cases child with
  | complex info own declared =>
    cases parent with
    | simple | complex => simp [mapInfo, backfill, mapInfoFields_fillFrom]
    | list _ above | set _ above | map _ above => cases above <;> simp [mapInfo, backfill]
  | simple => simp [mapInfo, backfill]
  | list _ own | set _ own | map _ own => cases own <;> simp [mapInfo, backfill]

theorem joined_mapInfo (info : Info) (declared : List String) (parent : Node)
    (merged : List (String × Node)) :
    joined (f info) declared (parent.mapInfo f) (mapInfoFields f merged) =
      (joined info declared parent merged).mapInfo f := by
  simp [joined, mapInfo, properties_mapInfo, mapInfoFields_fillFrom]

theorem mergeText_related (place : String) (policy : ValuePolicy) (parent : Node)
    (info : Info) (text : Option String) :
    Related (fun relabelled node => relabelled = node.mapInfo f)
      (mergeText rules place policy (parent.mapInfo f) (f info) text)
      (mergeText rules place policy parent info text) := by
  cases policy with
  | useChild => exact .ok rfl
  | useParent => exact .ok rfl
  | merge => exact .error _
  | strategy name =>
    rw [mergeText, mergeText, text?_mapInfo]
    cases rules.strategies.find? name with
    | none => exact .error _
    | some combine => exact .ok rfl

/-! ## Pairs of nodes -/

def Verdict.node? : Verdict → Option Node
  | .settled node _ => some node
  | .undecided _ => none

theorem judge_merge (parent child : Node) : (judge .merge parent child).1 = false := by
  unfold judge
  cases isStale parent child <;> rfl

theorem settle_related (hf : Relabels f) (hp : p.policy.stale = .merge) (owner place : String)
    (parent child : Node) :
    Related (fun relabelled v => relabelled.node? = v.node?.map (mapInfo f))
      (settle rules owner place p (parent.mapInfo f) (child.mapInfo f))
      (settle rules owner place p parent child) := by
  -- A stale pair is only counted.
  unfold settle
  rw [checkKinds_mapInfo hf, isAbsent_mapInfo, isAbsent_mapInfo, hp]
  refine .bind_same fun _ _ => .bind_same fun _ _ => ?_
  cases child.isAbsent with
  | true => exact .ok rfl
  | false =>
    cases parent.isAbsent with
    | true => exact .ok rfl
    | false =>
      simp only [Bool.false_eq_true, if_false, judge_merge]
      exact .ok rfl

/-- Merged nodes that differ in metadata only. -/
def Relabelled (f : Info → Info) (a b : Node × Totals) : Prop := a.1 = b.1.mapInfo f

theorem settle_then (hf : Relabels f) (hp : p.policy.stale = .merge) {owner place : String}
    {parent : Node} (child : Node) {relabelled values : Totals → Except Error (Node × Totals)}
    (hvalues : ∀ a b, Related (Relabelled f) (relabelled a) (values b)) :
    Related (Relabelled f)
      (do
        match ← settle rules owner place p (parent.mapInfo f) (child.mapInfo f) with
        | .settled node stale => return (node, stale)
        | .undecided stale => relabelled stale)
      (do
        match ← settle rules owner place p parent child with
        | .settled node stale => return (node, stale)
        | .undecided stale => values stale) := by
  refine (settle_related hf hp owner place parent child).bind fun {v w} h => ?_
  cases v with
  | settled =>
    cases w with
    | settled => exact .ok (Option.some.inj h)
    | undecided => cases h
  | undecided =>
    cases w with
    | settled => cases h
    | undecided => exact hvalues _ _

/-- The metadata of the node is carried along by merges, whether the node stands for a property or
for an item of a collection. -/
structure Commutes (rules : Rules) (f : Info → Info) (child : Node) : Prop where
  property : ∀ {owner place : String} {p : Property} {parent : Node}, p.policy.stale = .merge →
    Related (Relabelled f)
      (property rules owner place p (parent.mapInfo f) (child.mapInfo f))
      (property rules owner place p parent child)
  item : ∀ {place : String} {p : Property} {policy : ItemPolicy} {parent : Option Node}
    {key : String},
    Related (fun a b => a.1 = b.1.map (mapInfo f))
      (item rules place p policy (parent.map (mapInfo f)) key (child.mapInfo f))
      (item rules place p policy parent key child)

/-! ## Lists of nodes -/

theorem properties_related {type : Record} (htype : ∀ p ∈ type.properties, p.policy.stale = .merge)
    (place : String) (inherited : List (String × Node)) {own : List (String × Node)}
    (hown : ∀ e ∈ own, Commutes rules f e.2) :
    Related (fun a b => a.1 = mapInfoFields f b.1)
      (properties rules place type (mapInfoFields f inherited) (mapInfoFields f own))
      (properties rules place type inherited own) := by
  induction own with
  | nil => exact .ok rfl
  | cons e rest ih =>
    obtain ⟨name, child⟩ := e
    have hrest {a b : Node × Totals} (hab : Relabelled f a b) :
        Related (fun a b => a.1 = mapInfoFields f b.1)
          (do
            let r ← properties rules place type (mapInfoFields f inherited) (mapInfoFields f rest)
            return ((name, a.1) :: r.1, a.2 + r.2))
          (do
            let r ← properties rules place type inherited rest
            return ((name, b.1) :: r.1, b.2 + r.2)) := by
      refine (ih fun e he => hown e (List.mem_cons_of_mem _ he)).bind ?_
      rintro ⟨_, others⟩ ⟨nodes, others'⟩ rfl
      exact .ok (by rw [hab, mapInfoFields])
    rw [mapInfoFields, properties, properties, lookup_mapInfoFields]
    cases inherited.lookup name with
    | none => exact hrest (a := (_, .zero)) (b := (_, .zero)) rfl
    | some parent =>
      cases hfind : type.find? name with
      | none => exact hrest (a := (_, .zero)) (b := (_, .zero)) rfl
      | some p =>
        exact ((hown (name, child) List.mem_cons_self).property
          (htype p (List.mem_of_find?_eq_some hfind))).bind hrest

theorem items_related {place : String} {policy : ItemPolicy} {above : List (String × Node)}
    {seen keys : List String} {own : List Node} (hown : ∀ n ∈ own, Commutes rules f n) :
    Related (fun a b => a.1 = mapInfoItems f b.1)
      (items rules place p policy (mapInfoFields f above) seen keys (mapInfoItems f own))
      (items rules place p policy above seen keys own) := by
  induction own generalizing seen keys with
  | nil => exact .ok rfl
  | cons child rest ih =>
    have hrest := fun seen keys => @ih seen keys fun n hn => hown n (List.mem_cons_of_mem _ hn)
    cases keys with
    | nil => exact .ok rfl
    | cons key keys =>
      rw [mapInfoItems, items, items]
      split
      · exact hrest seen keys
      · rw [lookup_mapInfoFields]
        refine ((hown child List.mem_cons_self).item).bind ?_
        rintro ⟨_, first⟩ ⟨kept, first'⟩ rfl
        refine (hrest _ _).bind ?_
        rintro ⟨_, others⟩ ⟨nodes, others'⟩ rfl
        exact .ok (by cases kept <;> rfl)

theorem entries_related {place : String} {policy : ItemPolicy} {above own : List (String × Node)}
    (hown : ∀ e ∈ own, Commutes rules f e.2) :
    Related (fun a b => a.1 = mapInfoFields f b.1)
      (entries rules place p policy (mapInfoFields f above) (mapInfoFields f own))
      (entries rules place p policy above own) := by
  induction own with
  | nil => exact .ok rfl
  | cons e rest ih =>
    obtain ⟨key, child⟩ := e
    rw [mapInfoFields, entries, entries, lookup_mapInfoFields]
    refine ((hown (key, child) List.mem_cons_self).item).bind ?_
    rintro ⟨_, first⟩ ⟨kept, first'⟩ rfl
    refine (ih fun e he => hown e (List.mem_cons_of_mem _ he)).bind ?_
    rintro ⟨_, others⟩ ⟨nodes, others'⟩ rfl
    exact .ok (by cases kept <;> rfl)

/-! ## All nodes -/

/-- Every property of the schema merges stale children like fresh ones. -/
def KeepsStale (s : Schema) : Prop :=
  ∀ r ∈ s.records, ∀ p ∈ r.properties, p.policy.stale = .merge

instance (s : Schema) : Decidable (KeepsStale s) :=
  inferInstanceAs (Decidable (∀ r ∈ s.records, ∀ p ∈ r.properties, p.policy.stale = .merge))

theorem item_related (hf : Relabels f) (hrules : KeepsStale rules.schema) (child : Node)
    (hown : ∀ e ∈ child.properties?.getD [], Commutes rules f e.2) {place : String}
    {policy : ItemPolicy} {parent : Option Node} {key : String} :
    Related (fun a b => a.1 = b.1.map (mapInfo f))
      (item rules place p policy (parent.map (mapInfo f)) key (child.mapInfo f))
      (item rules place p policy parent key child) := by
  cases parent with
  | none =>
    rw [Option.map_none, item_none, item_none]
    exact .ok (added_mapInfo child)
  | some parent =>
    have hcheck := checkComplex_mapInfo hf (place ++ "[" ++ key ++ "]") parent child
    cases child with
    | complex info own declared =>
      rw [mapInfo] at hcheck
      simp only [mapInfo, Option.map_some, item]
      refine .bind_same fun choice hchoice => ?_
      cases choice with
      | parent => exact .ok rfl
      | child =>
        refine .ok ?_
        rw [Option.map_some, ← backfill_mapInfo, mapInfo]
      | combine type =>
        have htype := hrules type (mem_records (chooseItem_combine hchoice).2.2)
        simp only [hcheck, properties_mapInfo]
        refine .bind_same fun _ _ => (properties_related htype _ _ hown).bind ?_
        rintro ⟨_, inner⟩ ⟨merged, inner'⟩ rfl
        exact .ok (by rw [joined_mapInfo]; rfl)
    | simple info text =>
      rw [mapInfo] at hcheck
      simp only [mapInfo, Option.map_some, item, hcheck]
      refine .bind_same fun choice _ => ?_
      cases choice with
      | parent | child => exact .ok rfl
      | combine => exact .bind_same fun _ _ => .ok rfl
    | list info own | set info own | map info own =>
      cases own
      all_goals
        rw [mapInfo] at hcheck
        simp only [mapInfo, Option.map_some, item, hcheck]
        refine .bind_same fun choice _ => ?_
        cases choice with
        | parent | child => exact .ok rfl
        | combine => exact .bind_same fun _ _ => .ok rfl

theorem commutes (hf : Relabels f) (hrules : KeepsStale rules.schema) (child : Node) :
    Commutes rules f child := by
  -- `settle_then` carries the staleness check over, so each case is about what comes after it.
  induction child using Node.tree_induction with
  | simple info text =>
    refine ⟨fun {owner place p parent} hp => ?_, item_related hf hrules _ (by simp [properties?])⟩
    rw [mapInfo]
    unfold property
    refine settle_then hf hp (.simple info text) fun a b => ?_
    rw [effectivePolicy_mapInfo hf]
    refine (mergeText_related place _ parent info text).bind ?_
    rintro _ node rfl
    exact .ok rfl
  | complex info own declared ih =>
    refine ⟨fun {owner place p parent} hp => ?_,
      item_related hf hrules (.complex info own declared) ih⟩
    rw [mapInfo]
    unfold property
    refine settle_then hf hp (.complex info own declared) fun a b => ?_
    rw [chooseComplex_mapInfo hf]
    refine .bind_same fun choice hchoice => ?_
    cases choice with
    | child | parent => exact .ok rfl
    | combine type =>
      have htype := hrules type (mem_records (chooseComplex_combine hchoice).2)
      rw [properties_mapInfo]
      refine (properties_related htype place _ ih).bind ?_
      rintro ⟨_, inner⟩ ⟨merged, inner'⟩ rfl
      exact .ok (joined_mapInfo info declared parent merged)
  | absentList info =>
    refine ⟨fun {owner place p parent} hp => ?_, item_related hf hrules _ (by simp [properties?])⟩
    refine settle_then hf hp (.list info none) fun a b => .ok ?_
    rw [effectivePolicy_mapInfo hf, Relabelled]
    split <;> rfl
  | list info own ih =>
    refine ⟨fun {owner place p parent} hp => ?_, item_related hf hrules _ (by simp [properties?])⟩
    refine settle_then hf hp (.list info (some own)) fun a b => .ok ?_
    rw [effectivePolicy_mapInfo hf, Relabelled]
    split <;> rfl
  | absentSet info =>
    refine ⟨fun {owner place p parent} hp => ?_, item_related hf hrules _ (by simp [properties?])⟩
    exact settle_then hf hp (.set info none) fun a b => .ok rfl
  | absentMap info =>
    refine ⟨fun {owner place p parent} hp => ?_, item_related hf hrules _ (by simp [properties?])⟩
    exact settle_then hf hp (.map info none) fun a b => .ok rfl
  | set info own ih =>
    refine ⟨fun {owner place p parent} hp => ?_, item_related hf hrules _ (by simp [properties?])⟩
    rw [mapInfo]
    unfold property
    refine settle_then hf hp (.set info (some own)) fun a b => ?_
    rw [items_mapInfo, effectiveItemPolicy_mapInfo hf]
    refine (keyItems_related hf place _).bind ?_
    rintro _ above rfl
    refine (keyItems_related hf place own).bind ?_
    rintro _ keyed rfl
    simp only [keys_mapInfoFields, survivors_mapInfo, values_mapInfoFields]
    refine (items_related ih).bind ?_
    rintro ⟨_, inner⟩ ⟨merged, inner'⟩ rfl
    exact .ok (by rw [Relabelled, mapInfo, mapInfoItems_append])
  | map info own ih =>
    refine ⟨fun {owner place p parent} hp => ?_, item_related hf hrules _ (by simp [properties?])⟩
    rw [mapInfo]
    unfold property
    refine settle_then hf hp (.map info (some own)) fun a b => ?_
    simp only [entries_mapInfo, effectiveItemPolicy_mapInfo hf, checkEntries_mapInfo hf,
      keys_mapInfoFields, survivors_mapInfo]
    refine .bind_same fun _ _ => .bind_same fun _ _ => (entries_related ih).bind ?_
    rintro ⟨_, inner⟩ ⟨merged, inner'⟩ rfl
    exact .ok (by rw [Relabelled, mapInfo, mapInfoFields_fillFrom])

/-! ## Levels -/

theorem complex_related (hf : Relabels f) (hrules : KeepsStale rules.schema) {type : Record}
    (htype : type ∈ rules.schema.records) (place : String) (parent child : Node) :
    Related (Relabelled f) (complex rules place type (parent.mapInfo f) (child.mapInfo f))
      (complex rules place type parent child) := by
  unfold complex
  rw [checkComplex_mapInfo hf]
  refine .bind_same fun _ _ => ?_
  cases child with
  | complex info own declared =>
    simp only [mapInfo, properties_mapInfo]
    refine (properties_related (hrules type htype) place _
      fun e _ => commutes hf hrules e.2).bind ?_
    rintro ⟨_, stale⟩ ⟨merged, stale'⟩ rfl
    exact .ok (joined_mapInfo info declared parent merged)
  | simple => exact .ok rfl
  | list _ own | set _ own | map _ own => cases own <;> exact .ok rfl

theorem levelsFrom_related (hf : Relabels f) (hrules : KeepsStale rules.schema) {type : Record}
    (htype : type ∈ rules.schema.records) (above : Option Node) (all : List (Option Node)) :
    Related (fun a b => a.1 = b.1.map (mapInfo f))
      (levelsFrom rules type (above.map (mapInfo f)) (all.map (Option.map (mapInfo f))))
      (levelsFrom rules type above all) := by
  induction all generalizing above with
  | nil => exact .ok rfl
  | cons level rest ih =>
    match above, level with
    | above, none => exact ih above
    | none, some level => exact ih (some level)
    | some parent, some level =>
      refine (complex_related hf hrules htype type.name parent level).bind ?_
      rintro ⟨_, first⟩ ⟨node, first'⟩ rfl
      refine (ih (some node)).bind ?_
      rintro ⟨_, others⟩ ⟨merged, others'⟩ rfl
      exact .ok rfl

end Merge

/-- The metadata without what a merge tests to find stale children. -/
def Info.unversioned (i : Info) : Info :=
  { i with version := 0, parentScope := none, parentVersion := 0 }

theorem relabels_unversioned : Relabels Info.unversioned := ⟨fun _ => rfl, fun _ => rfl⟩

/-- The tree without versions and parent records. -/
def Node.unversioned (n : Node) : Node := n.mapInfo Info.unversioned

namespace Merge

variable {rules : Rules}

/-- Where every property merges stale children like fresh ones, levels that differ in versions and
parent records fail to merge with the same error, or merge to nodes that differ in these. -/
theorem levels_unversioned (hrules : KeepsStale rules.schema) {type : Schema.Record}
    (htype : type ∈ rules.schema.records) {all others : List (Option Node)}
    (h : all.map (Option.map Node.unversioned) = others.map (Option.map Node.unversioned)) :
    (∃ e, levels rules type all = .error e ∧ levels rules type others = .error e) ∨
      ∃ merged stale merged' stale', levels rules type all = .ok (merged, stale) ∧
        levels rules type others = .ok (merged', stale') ∧
        merged.map Node.unversioned = merged'.map Node.unversioned := by
  have hall := levelsFrom_related relabels_unversioned hrules htype none all
  have hothers := levelsFrom_related relabels_unversioned hrules htype none others
  rw [show all.map (Option.map (Node.mapInfo Info.unversioned)) = _ from h] at hall
  obtain ⟨e, ha, ho⟩ | ⟨_, ⟨merged, stale⟩, ⟨merged', stale'⟩, ha, ho, hm, hm'⟩ :=
    hall.alike hothers
  · exact .inl ⟨e, ha, ho⟩
  · exact .inr ⟨merged, stale, merged', stale', ha, ho, hm.symm.trans hm'⟩

end Merge

namespace Sample

open Merge (KeepsStale)

/-- The global snapshot, and a user's that was saved against the given one. -/
def savedAgainst (above : Option Node) : List (Option Node) :=
  [some (app "80"), some (Stamp.forSave rules.schema record none (app "8080") above alice)]

/-- One user's port is stale and the other's is not, and they merge alike. -/
theorem stale_port_merges :
    KeepsStale rules.schema ∧ record ∈ rules.schema.records ∧
      (savedAgainst none).map (Option.map Node.unversioned) =
        (savedAgainst (some (app "80"))).map (Option.map Node.unversioned) ∧
      ∃ stale fresh, Merge.levels rules.toRules record (savedAgainst none) = .ok (stale, ⟨1, 0⟩) ∧
        Merge.levels rules.toRules record (savedAgainst (some (app "80"))) = .ok (fresh, ⟨0, 0⟩) ∧
        stale.map Node.unversioned = fresh.map Node.unversioned := by
  have hrules : KeepsStale rules.schema := by decide
  have htype : record ∈ rules.schema.records := by decide
  have hsame : (savedAgainst none).map (Option.map Node.unversioned) =
      (savedAgainst (some (app "80"))).map (Option.map Node.unversioned) := by decide
  refine ⟨hrules, htype, hsame, ?_⟩
  have hstale : Merge.levels rules.toRules record (savedAgainst none) = .ok (_, ⟨1, 0⟩) := rfl
  have hfresh : Merge.levels rules.toRules record (savedAgainst (some (app "80"))) =
      .ok (_, ⟨0, 0⟩) := rfl
  refine ⟨_, _, hstale, hfresh, ?_⟩
  obtain ⟨e, he, -⟩ | ⟨_, _, _, _, ha, hb, hequal⟩ :=
    @Merge.levels_unversioned rules.toRules hrules record htype _ _ hsame
  · cases hstale.symm.trans he
  · cases hstale.symm.trans ha
    cases hfresh.symm.trans hb
    exact hequal

end Sample

end ScopedConfig
