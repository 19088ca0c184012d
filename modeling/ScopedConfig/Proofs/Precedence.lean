import ScopedConfig.Proofs.Checked
import ScopedConfig.Proofs.Order
import ScopedConfig.Proofs.Provenance
import ScopedConfig.Proofs.Run

/-!
# The most specific level wins

Where texts are overridden and complex values are merged, the merge of any levels has at each
declared text the node of the last level that has one there.
-/

namespace ScopedConfig

open Schema ScopedConfig.Except

/-- The names lead through properties that the types declare, to this property. -/
inductive Schema.Declares (s : Schema) : Record → List String → Property → Prop where
  | direct {type : Record} {name : String} {p : Property} (hfind : type.find? name = some p) :
    Declares s type [name] p
  | nested {type inner : Record} {name : String} {p q : Property} {rest : List String}
    (hfind : type.find? name = some p) (hkind : p.kind = .complex)
    (htype : s.find? p.typeName = some inner) (hrest : Declares s inner rest q) :
    Declares s type (name :: rest) q

namespace Merge

/-- Stale or not, the child overrides a text, and a complex value is merged. -/
def Plain (p : Property) : Prop :=
  p.policy.stale = .merge ∧ (p.kind = .simple ∧ p.policy.value = .useChild ∨
    p.kind = .complex ∧ p.polymorphic = false ∧ p.policy.value = .merge)

instance (p : Property) : Decidable (Plain p) := inferInstanceAs (Decidable (_ ∧ _))

theorem plain_of_records {s : Schema} {type : Record} {path : List String} {p : Property}
    (h : ∀ type ∈ s.records, ∀ p ∈ type.properties, Plain p) (htype : type ∈ s.records)
    (hd : s.Declares type path p) : Plain p := by
  induction hd with
  | direct hfind => exact h _ htype _ (List.mem_of_find?_eq_some hfind)
  | nested _ _ hinner _ ih => exact ih (mem_records hinner)

variable {rules : Rules} {p : Property} {parent child node : Node} {stale : Totals}

/-! ## One property -/

theorem settle_plain (hp : Plain p) {owner place : String} {v : Verdict}
    (h : settle rules owner place p parent child = .ok v) : ∃ stale, v = .undecided stale := by
  obtain ⟨hstale, hkind⟩ := hp
  obtain ⟨_, -, h⟩ := bind_eq_ok.1 h
  obtain ⟨_, hkinds, h⟩ := bind_eq_ok.1 h
  obtain ⟨hparent, hchild⟩ := checkKinds_ok hkinds
  have hthere {n : Node} (hn : n.kind = p.kind) : n.isAbsent = false := by
    cases n with
    | simple | complex => rfl
    | list | set | map =>
      obtain ⟨hkind, -⟩ | ⟨hkind, -⟩ := hkind <;> simp [hkind, Node.kind] at hn
  have hkept : (judge p.policy.stale parent child).1 = false := by
    rw [hstale]
    unfold judge
    split <;> rfl
  simp only [hthere hparent, hthere hchild, hkept, Bool.false_eq_true, if_false, pure_eq_ok] at h
  exact ⟨_, h.symm⟩

theorem property_plain (hp : Plain p) {owner place : String}
    (h : property rules owner place p parent child = .ok (node, stale)) :
    (parent.kind = p.kind ∧ child.kind = p.kind) ∧
      ∃ inner, ValuesTo rules place p parent child node inner := by
  obtain hv | ⟨first, inner, hv, hvalues, -⟩ := property_ok h
  · obtain ⟨stale, hundecided⟩ := settle_plain hp hv
    cases hundecided
  · exact ⟨(settle_ok hv).1, inner, hvalues⟩

theorem property_plain_simple (hp : Plain p) (hkind : p.kind = .simple) {owner place : String}
    (h : property rules owner place p parent child = .ok (node, stale)) : node = child := by
  obtain ⟨⟨-, hchild⟩, inner, hvalues⟩ := property_plain hp h
  rw [hkind] at hchild
  have hoverridden : Overridden p := by
    refine ⟨hkind, ?_⟩
    obtain ⟨-, ⟨-, hvalue⟩ | ⟨hcomplex, -⟩⟩ := hp
    · exact hvalue
    · simp [hkind] at hcomplex
  cases child with
  | simple info text =>
    obtain ⟨hvalue, -⟩ := hvalues
    rw [hoverridden.effectivePolicy, mergeText] at hvalue
    exact (Except.ok.inj hvalue).symm
  | complex | list | set | map => simp [Node.kind] at hchild

theorem property_plain_complex (hp : Plain p) (hkind : p.kind = .complex) {owner place : String}
    (h : property rules owner place p parent child = .ok (node, stale)) :
    ∃ type inner, rules.schema.find? p.typeName = some type ∧
      complex rules place type parent child = .ok (node, inner) := by
  obtain ⟨⟨hparent, hchild⟩, inner, hvalues⟩ := property_plain hp h
  rw [hkind] at hparent hchild
  have hpolicy : effectivePolicy p parent = .merge := by
    obtain ⟨-, ⟨hsimple, -⟩ | ⟨-, hmono, hvalue⟩⟩ := hp
    · simp [hkind] at hsimple
    · unfold effectivePolicy
      split
      · rw [hkind, hmono]
        rfl
      · exact hvalue
  have hchoice {choice : Choice} (h : chooseComplex rules place p parent = .ok choice) :
      ∃ type, choice = .combine type := by
    unfold chooseComplex at h
    rw [hpolicy] at h
    dsimp only at h
    split at h
    · cases h
    · obtain ⟨type, -, rfl⟩ := map_eq_ok.1 h
      exact ⟨type, rfl⟩
  cases child with
  | complex info own declared =>
    obtain ⟨hchild', -⟩ | ⟨hparent', -⟩ | ⟨type, merged, hcombine, hmerged, rfl⟩ := hvalues
    · obtain ⟨type, hne⟩ := hchoice hchild'
      cases hne
    · obtain ⟨type, hne⟩ := hchoice hparent'
      cases hne
    · refine ⟨type, inner, (chooseComplex_combine hcombine).2, ?_⟩
      simp only [Merge.complex, checkComplex, hparent, hchild, and_self, if_true]
      exact bind_eq_ok.2 ⟨(), rfl, bind_eq_ok.2 ⟨(merged, inner), hmerged, rfl⟩⟩
  | simple | list | set | map => simp [Node.kind] at hchild

/-! ## One merge -/

theorem complex_follow {type : Record} {path : List String} {place : String}
    (hd : rules.schema.Declares type path p) (hkind : p.kind = .simple)
    (hplain : ∀ path q, rules.schema.Declares type path q → Plain q)
    (hparent : parent.isOrdered = true)
    (h : complex rules place type parent child = .ok (node, stale)) :
    node.follow path = (child.follow path).or (parent.follow path) := by
  -- Each name of the path leads to a pair of the next merge unless one side lacks it.
  induction hd generalizing place parent child node stale with
  | @direct type name p hfind =>
    simp only [Node.follow]
    obtain ⟨hnone, hnode⟩ | ⟨hnone, hnode⟩ | ⟨a, c, b, first, ha, hc, hb, hproperty, -⟩ :=
      complex_property? hfind (tidy_of_ordered hparent) h
    · simp [hnone, hnode]
    · simp [hnone, hnode]
    · have hp : Plain p := hplain _ _ (.direct hfind)
      rw [property_plain_simple hp hkind hproperty] at hb
      simp [hc, hb]
  | @nested type inner name p q rest hfind hcomplex htype hrest ih =>
    simp only [Node.follow]
    obtain ⟨hnone, hnode⟩ | ⟨hnone, hnode⟩ | ⟨a, c, b, first, ha, hc, hb, hproperty, -⟩ :=
      complex_property? hfind (tidy_of_ordered hparent) h
    · simp [hnone, hnode]
    · simp [hnone, hnode]
    · -- Both sides have the complex value, so it is merged by the same rule one name further down.
      have hp : Plain p := hplain _ _ (.direct hfind)
      obtain ⟨found, total, hfound, hmerged⟩ := property_plain_complex hp hcomplex hproperty
      obtain rfl : inner = found := Option.some.inj (htype.symm.trans hfound)
      have hordered : a.isOrdered = true := by
        rw [property?_eq_lookup] at ha
        exact Node.properties_ordered hparent (name, a) (Keyed.mem_of_lookup ha)
      rw [ha, hc, hb]
      have hinner : ∀ path q, rules.schema.Declares inner path q → Plain q :=
        fun path q hq => hplain _ _ (.nested hfind hcomplex htype hq)
      exact ih hkind hinner hordered hmerged

/-! ## All levels -/

/-- The node at the path in the last level that has one there. -/
def lastAt (path : List String) (all : List (Option Node)) : Option Node :=
  (all.filterMap fun level => level.bind fun n => n.follow path).getLast?

theorem lastAt_cons (path : List String) (level : Option Node) (rest : List (Option Node)) :
    lastAt path (level :: rest) = (lastAt path rest).or (level.bind fun n => n.follow path) := by
  unfold lastAt
  rw [List.filterMap_cons]
  split
  case h_1 hnone => rw [hnone, Option.or_none]
  case h_2 m hm =>
    rw [List.getLast?_cons, hm]
    cases (rest.filterMap fun level => level.bind fun n => n.follow path).getLast? <;> rfl

theorem levelsFrom_follow {type : Record} {path : List String}
    (hd : rules.schema.Declares type path p) (hkind : p.kind = .simple)
    (hplain : ∀ path q, rules.schema.Declares type path q → Plain q) {above merged : Option Node}
    {all : List (Option Node)} (habove : ∀ n, above = some n → n.isOrdered = true)
    (hall : ∀ n, some n ∈ all → n.isOrdered = true)
    (h : levelsFrom rules type above all = .ok (merged, stale)) :
    (merged.bind fun n => n.follow path) =
      (lastAt path all).or (above.bind fun n => n.follow path) := by
  induction all generalizing above stale with
  | nil =>
    cases h
    rfl
  | cons level rest ih =>
    have hrest : ∀ n, some n ∈ rest → n.isOrdered = true :=
      fun n hn => hall n (List.mem_cons_of_mem _ hn)
    rw [lastAt_cons, Option.or_assoc]
    -- An absent level changes nothing, and the first one that is there is taken as it is.
    match above, level with
    | above, none =>
      rw [levelsFrom] at h
      rw [ih habove hrest h]
      rfl
    | none, some level =>
      rw [levelsFrom] at h
      have hlevel : ∀ n, some level = some n → n.isOrdered = true :=
        fun n hn => hall n (hn ▸ List.mem_cons_self)
      rw [ih hlevel hrest h, Option.bind_none, Option.or_none]
    | some parent, some level =>
      rw [levelsFrom] at h
      obtain ⟨⟨node, first⟩, hnode, h⟩ := bind_eq_ok.1 h
      obtain ⟨⟨result, others⟩, hothers, h⟩ := bind_eq_ok.1 h
      cases h
      have hparent := habove parent rfl
      have hordered : node.isOrdered = true :=
        complex_ordered hparent (hall level List.mem_cons_self) hnode
      have hnext : ∀ n, some node = some n → n.isOrdered = true :=
        fun n hn => Option.some.inj hn ▸ hordered
      rw [ih hnext hrest hothers, Option.bind_some, Option.bind_some, Option.bind_some,
        complex_follow hd hkind hplain hparent hnode]

/-- A declared text of the merged node is, with its metadata, that of the last level that has it. -/
theorem levels_follow {type : Record} {path : List String} {all : List (Option Node)} {n : Node}
    (hplain : ∀ path q, rules.schema.Declares type path q → Plain q)
    (hordered : ∀ level, some level ∈ all → level.isOrdered = true)
    (h : levels rules type all = .ok (some n, stale)) (hd : rules.schema.Declares type path p)
    (hkind : p.kind = .simple) :
    n.follow path = lastAt path all := by
  have hfollow := levelsFrom_follow hd hkind hplain (by rintro _ ⟨⟩) hordered h
  rw [Option.bind_none, Option.or_none] at hfollow
  exact hfollow

end Merge

/-! ## A small example

A group has a limit and a group inside it.
-/

namespace Sample

def group : Record :=
  { name := "Group", properties := [.simple "limit" "int", .complex "inner" "Group"] }

def groups : Merge.Rules := ⟨.insert .empty group, .standard⟩

def limit (version : Int) (text : String) : String × Node :=
  ("limit", .simple { definedAt := global, typeName := "int", version } (some text))

def groupWith (own : List (String × Node)) : Node :=
  .complex { definedAt := global, typeName := "Group" } own (own.map Prod.fst)

/-- Only the first two levels have a limit inside, and they are not the last one. -/
def limits : List (Option Node) :=
  [some (groupWith [("inner", groupWith [limit 1 "10"]), limit 1 "5"]), none,
    some (groupWith [("inner", groupWith [limit 3 "20"])]),
    some (groupWith [("inner", groupWith []), limit 2 "6"])]

theorem limits_follow :
    (∀ path p, groups.schema.Declares group path p → Merge.Plain p) ∧
      (∀ level, some level ∈ limits → level.isOrdered = true) ∧
      ∃ n stale, Merge.levels groups group limits = .ok (some n, stale) ∧
        n.follow ["inner", "limit"] = some (limit 3 "20").2 := by
  have hrecords : ∀ type ∈ groups.schema.records, ∀ p ∈ type.properties, Merge.Plain p := by
    decide
  have hplain : ∀ path p, groups.schema.Declares group path p → Merge.Plain p :=
    fun _ _ hd => Merge.plain_of_records hrecords List.mem_cons_self hd
  have hlevels : ∀ level ∈ limits, level.all Node.isOrdered = true := by decide
  have hordered : ∀ level, some level ∈ limits → level.isOrdered = true :=
    fun level hlevel => hlevels (some level) hlevel
  have hd : groups.schema.Declares group ["inner", "limit"] (.simple "limit" "int") :=
    .nested rfl rfl rfl (.direct rfl)
  have h : Merge.levels groups group limits = .ok (some _, _) := rfl
  exact ⟨hplain, hordered, _, _, h, Merge.levels_follow hplain hordered h hd rfl⟩

end Sample

end ScopedConfig
