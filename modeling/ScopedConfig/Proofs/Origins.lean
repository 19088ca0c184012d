import ScopedConfig.Proofs.Collections
import ScopedConfig.Proofs.Order
import ScopedConfig.Proofs.Position
import ScopedConfig.Proofs.Run

/-!
# Origins of texts

Without strategies no text is made up. Whatever the policies are, a text of the merged node, with
its metadata, is one that a level has at the same position.
-/

namespace ScopedConfig.Merge

open Schema Node ScopedConfig.Except

/-! ## Texts and their sources -/

/-- The texts of a node are among what the sources have at their positions. -/
def Sourced (sources : List Step → Node → Prop) (n : Node) : Prop :=
  ∀ steps info text, n.at? steps = some (.simple info text) → sources steps (.simple info text)

/-- Some level has the node at the position. -/
def InLevels (all : List (Option Node)) (steps : List Step) (n : Node) : Prop :=
  ∃ level, some level ∈ all ∧ level.at? steps = some n

/-- What the sources have below a step. -/
def below (sources : List Step → Node → Prop) (step : Step) : List Step → Node → Prop :=
  fun rest => sources (step :: rest)

variable {sources : List Step → Node → Prop}

theorem Sourced.child {n child : Node} {step : Step} (h : Sourced sources n)
    (hchild : n.child? step = some child) : Sourced (below sources step) child := by
  intro rest info text hat
  exact h (step :: rest) info text (Option.bind_eq_some_iff.2 ⟨child, hchild, hat⟩)

theorem sourced_of_below {n : Node} (hkind : n.kind ≠ .simple)
    (h : ∀ step child, n.child? step = some child → Sourced (below sources step) child) :
    Sourced sources n := by
  intro steps info text hat
  cases steps with
  | nil =>
    cases hat
    exact absurd rfl hkind
  | cons step rest =>
    obtain ⟨child, hchild, hat⟩ := Option.bind_eq_some_iff.1 hat
    exact h step child hchild rest info text hat

/-! ## Properties that are filled in -/

theorem property?_of_mem {n : Node} {e : String × Node} (hordered : n.isOrdered = true)
    (he : e ∈ n.properties?.getD []) : n.property? e.1 = some e.2 := by
  rw [property?_eq_lookup]
  exact Keyed.lookup_of_mem (properties_sorted hordered) he

theorem filled_sourced {info : Info} {declared : List String} {parent : Node}
    {own : List (String × Node)} (hordered : parent.isOrdered = true)
    (hparent : Sourced sources parent)
    (hown : ∀ e ∈ own, Sourced (below sources (.property e.1)) e.2) :
    Sourced sources (joined info declared parent own) := by
  refine sourced_of_below (by simp [joined, Node.kind]) fun step child hchild => ?_
  cases step with
  | entry key => cases hchild
  | property name =>
    rcases property?_of_joined hordered hchild with he | he
    · exact hown _ (Keyed.mem_of_lookup he)
    · exact hparent.child he

theorem backfill_sourced {parent child : Node} (hordered : parent.isOrdered = true)
    (hordered' : child.isOrdered = true) (hparent : Sourced sources parent)
    (hchild : Sourced sources child) : Sourced sources (backfill parent child) := by
  unfold backfill
  split
  · refine filled_sourced hordered hparent fun e he => ?_
    exact hchild.child (property?_of_mem hordered' he)
  · exact hchild

/-! ## Merges -/

variable {rules : Rules}

/-- The property takes one side or puts it together from parts, but makes no text. -/
def Unnamed (p : Property) : Prop := p.policy.value.isNamed = false

theorem effectivePolicy_unnamed {p : Property} (hp : Unnamed p) (parent : Node) :
    (effectivePolicy p parent).isNamed = false := by
  unfold effectivePolicy
  split
  · unfold ValuePolicy.standard
    split <;> rfl
  · exact hp

theorem mergeText_unnamed {place : String} {policy : ValuePolicy} {parent node : Node} {info : Info}
    {text : Option String} (hpolicy : policy.isNamed = false)
    (h : mergeText rules place policy parent info text = .ok node) :
    node = parent ∨ node = .simple info text := by
  cases policy with
  | useChild => exact .inr (Except.ok.inj h).symm
  | useParent => exact .inl (Except.ok.inj h).symm
  | merge => cases h
  | strategy name => cases hpolicy

variable (rules) in
/-- What becomes of the node has its texts from the sources if the node and what it is merged with
have theirs. -/
structure KeepsSourced (child : Node) : Prop where
  property : ∀ {owner place : String} {p : Property} {parent node : Node} {stale : Totals}
    {sources : List Step → Node → Prop}, Unnamed p → parent.isOrdered = true →
    child.isOrdered = true → Sourced sources parent → Sourced sources child →
    property rules owner place p parent child = .ok (node, stale) → Sourced sources node
  item : ∀ {place : String} {p : Property} {policy : ItemPolicy} {above : Option Node}
    {key : String} {node : Node} {stale : Totals} {sources : List Step → Node → Prop},
    (∀ a, above = some a → a.isOrdered = true ∧ Sourced sources a) → child.isOrdered = true →
    Sourced sources child → item rules place p policy above key child = .ok (some node, stale) →
    Sourced sources node

theorem joined_sourced {type : Record} (htype : ∀ p ∈ type.properties, Unnamed p)
    {parent : Node} {info : Info} {own merged : List (String × Node)} {declared : List String}
    {place : String} {stale : Totals} (hown : ∀ e ∈ own, KeepsSourced rules e.2)
    (hordered : parent.isOrdered = true)
    (hordered' : (Node.complex info own declared).isOrdered = true)
    (hparent : Sourced sources parent) (hchild : Sourced sources (.complex info own declared))
    (h : properties rules place type (parent.properties?.getD []) own = .ok (merged, stale)) :
    Sourced sources (joined info declared parent merged) := by
  refine filled_sourced hordered hparent fun e he => ?_
  obtain ⟨child, hc, hmerged⟩ := mem_properties h e he
  have hchild' : Sourced (below sources (.property e.1)) child :=
    hchild.child (property?_of_mem hordered' hc)
  obtain ⟨-, hsame⟩ | ⟨above, p, first, habove, hfind, hproperty⟩ := hmerged
  · rw [hsame]
    exact hchild'
  · have habove' : parent.property? e.1 = some above := by rw [property?_eq_lookup, habove]
    have hstep : parent.child? (.property e.1) = some above := habove'
    exact (hown _ hc).property (htype p (List.mem_of_find?_eq_some hfind))
      (child?_ordered hordered hstep) ((complex_ordered_iff.1 hordered').2 _ hc)
      (hparent.child hstep) hchild' hproperty

theorem map_sourced {own : List (String × Node)} (hown : ∀ e ∈ own, KeepsSourced rules e.2)
    {place : String} {p : Property} {parent node : Node} {info : Info} {inner : Totals}
    (hordered : parent.isOrdered = true)
    (hordered' : (Node.map info (some own)).isOrdered = true) (hparent : Sourced sources parent)
    (hchild : Sourced sources (.map info (some own)))
    (h : ValuesTo rules place p parent (.map info (some own)) node inner) :
    Sourced sources node := by
  obtain ⟨merged, -, -, hmerged, rfl⟩ := h
  obtain ⟨hsorted, hownOrdered⟩ := map_ordered_iff.1 hordered'
  have habove {key : String} {a : Node} (ha : (parent.entries?.getD []).lookup key = some a) :
      parent.child? (.entry key) = some a := by
    cases hentries : parent.entries? with
    | none => simp [hentries] at ha
    | some es => simpa [child?, hentries] using ha
  refine sourced_of_below (by simp [Node.kind]) fun step child hstep => ?_
  cases step with
  | property name => cases hstep
  | entry key =>
    rcases Keyed.mem_fillFrom (Keyed.mem_of_lookup hstep) with he | he
    · exact hparent.child (habove (mem_survivors he).2.2)
    · obtain ⟨c, first, hc, hitem⟩ := mem_entries hmerged _ he
      have hstep' : (Node.map info (some own)).child? (.entry key) = some c :=
        Keyed.lookup_of_mem hsorted hc
      exact (hown _ hc).item (fun a ha => ⟨child?_ordered hordered (habove ha),
        hparent.child (habove ha)⟩) (hownOrdered _ hc) (hchild.child hstep') hitem

variable (hrules : ∀ type ∈ rules.schema.records, ∀ p ∈ type.properties, Unnamed p)
include hrules

theorem item_sourced {place : String} {p : Property} {policy : ItemPolicy} {above : Option Node}
    {key : String} {child node : Node} {stale : Totals}
    (hown : ∀ e ∈ child.properties?.getD [], KeepsSourced rules e.2)
    (habove : ∀ a, above = some a → a.isOrdered = true ∧ Sourced sources a)
    (hordered : child.isOrdered = true) (hchild : Sourced sources child)
    (h : item rules place p policy above key child = .ok (some node, stale)) :
    Sourced sources node := by
  cases above with
  | none =>
    rw [(item_added h).2]
    exact hchild
  | some parent =>
    obtain ⟨hparent, hsourced⟩ := habove parent rfl
    obtain ⟨-, hnode⟩ | ⟨-, hnode⟩ | ⟨-, _, type, info, own, declared, merged, rfl,
      ⟨-, -, htype⟩, hmerged, hnode⟩ := item_paired h <;> cases hnode
    · exact hsourced
    · exact backfill_sourced hparent hordered hsourced hchild
    · exact joined_sourced (hrules type (mem_records htype)) hown hparent hordered hsourced hchild
        hmerged

theorem keepsSourced (child : Node) : KeepsSourced rules child := by
  have close {child : Node} (hown : ∀ e ∈ child.properties?.getD [], KeepsSourced rules e.2)
      (hvalues : ∀ {place p parent node inner sources}, Unnamed p → parent.isOrdered = true →
        child.isOrdered = true → Sourced sources parent → Sourced sources child →
        ValuesTo rules place p parent child node inner → Sourced sources node) :
      KeepsSourced rules child := by
    refine ⟨fun hp hordered hordered' hparent hchild h => ?_,
      fun habove hordered hchild h => item_sourced hrules hown habove hordered hchild h⟩
    obtain ⟨-, rfl | ⟨-, rfl⟩ | ⟨-, inner, hinner⟩⟩ := property_sides h
    · exact hparent
    · exact hchild
    · exact hvalues hp hordered hordered' hparent hchild hinner
  induction child using Node.tree_induction with
  | simple info text =>
    apply close (by simp [properties?])
    intro place p parent node inner sources hp _ _ hparent hchild hvalues
    obtain rfl | rfl := mergeText_unnamed (effectivePolicy_unnamed hp parent) hvalues.1
    · exact hparent
    · exact hchild
  | complex info own declared ih =>
    refine @close (.complex info own declared) ih ?_
    intro place p parent node inner sources hp hordered hordered' hparent hchild hvalues
    obtain ⟨-, rfl, -⟩ | ⟨-, rfl, -⟩ | ⟨type, merged, hchoice, hmerged, rfl⟩ := hvalues
    · exact hchild
    · exact hparent
    · have htype := hrules type (mem_records (chooseComplex_combine hchoice).2)
      exact joined_sourced htype ih hordered hordered' hparent hchild hmerged
  | absentList info | list info own =>
    apply close (by simp [properties?])
    intro place p parent node inner sources _ _ _ hparent hchild hvalues
    obtain ⟨rfl, -⟩ := hvalues
    split
    · exact hparent
    · exact hchild
  | absentSet info | absentMap info =>
    apply close (by simp [properties?])
    intro place p parent node inner sources _ _ _ _ hchild hvalues
    obtain ⟨rfl, -⟩ := hvalues
    exact hchild
  | set info own ih =>
    apply close (by simp [properties?])
    intro place p parent node inner sources _ _ _ _ _ hvalues
    obtain ⟨above, keyed, merged, -, -, -, rfl⟩ := hvalues
    -- No position leads into a set.
    refine sourced_of_below (by simp [Node.kind]) fun step child hchild => ?_
    cases step <;> cases hchild
  | map info own ih =>
    apply close (by simp [properties?])
    intro place p parent node inner sources _ hordered hordered' hparent hchild hvalues
    exact map_sourced ih hordered hordered' hparent hchild hvalues

/-! ## Levels -/

/-- Where no property names a strategy, a text of the merged node is the text of a level at the same
position, with the place where it was defined, its version and all other metadata. -/
theorem levels_texts {type : Record} (htype : type ∈ rules.schema.records)
    {all : List (Option Node)} (hordered : ∀ level, some level ∈ all → level.isOrdered = true)
    {node : Node} {stale : Totals} (h : levels rules type all = .ok (some node, stale))
    {steps : List Step} {info : Info} {text : Option String}
    (hat : node.at? steps = some (.simple info text)) :
    ∃ level, some level ∈ all ∧ level.at? steps = some (.simple info text) := by
  have hnode : node.isOrdered = true ∧ Sourced (InLevels all) node := by
    refine levelsFrom_induction (motive := fun n => n.isOrdered = true ∧ Sourced (InLevels all) n)
      ?_ (by simp) (fun n hn => ⟨hordered n hn, fun steps info text hat => ⟨n, hn, hat⟩⟩) h
    rintro parent child node stale ⟨hparent, hparentSourced⟩ ⟨hchild, hchildSourced⟩ hmerged
    refine ⟨complex_ordered hparent hchild hmerged, ?_⟩
    obtain ⟨-, info, own, declared, merged, rfl, hproperties, rfl⟩ := complex_ok hmerged
    exact joined_sourced (hrules type htype) (fun e _ => keepsSourced hrules e.2) hparent hchild
      hparentSourced hchildSourced hproperties
  exact hnode.2 steps info text hat

end ScopedConfig.Merge

/-! ## A small example

Two routes, one of them at both levels.
-/

namespace ScopedConfig.Sample

open Merge

def route : Schema.Record :=
  { name := "Route", properties := [.simple "host" "string", .simple "port" "int"] }

def router : Schema.Record :=
  { name := "App"
    properties := [(Schema.Property.map "routes" .complex "Route").entriesBy .add .add] }

def routeRules : Merge.Rules := ⟨.insert (.insert .empty router) route, .standard⟩

def routeText (place : Scope.Path) (version : Int) (name text : String) : String × Node :=
  (name, .simple { definedAt := place, typeName := "string", version } (some text))

def routesAt (place : Scope.Path) (routes : List (String × List (String × Node))) : Node :=
  .complex { definedAt := place, typeName := "App" }
    [("routes", .map { definedAt := place, typeName := "Route" } (some (routes.map fun r =>
      (r.1, .complex { definedAt := place, typeName := "Route" } r.2 (r.2.map Prod.fst)))))]
    ["routes"]

def routeLevels : List (Option Node) :=
  [some (routesAt global
      [("main", [routeText global 2 "host" "a", routeText global 3 "port" "80"])]),
    some (routesAt alice [("main", [routeText alice 1 "host" "b"]), ("side", [])])]

/-- The user's route takes the port that it lacks from the global one, as it was defined there. -/
theorem global_port_sourced :
    (∀ type ∈ routeRules.schema.records, ∀ p ∈ type.properties, Unnamed p) ∧
      router ∈ routeRules.schema.records ∧
      (∀ level, some level ∈ routeLevels → level.isOrdered = true) ∧
      ∃ node info, levels routeRules router routeLevels = .ok (some node, ⟨1, 0⟩) ∧
        info.definedAt = global ∧ info.version = 3 ∧
        node.at? [.property "routes", .entry "main", .property "port"] =
          some (.simple info (some "80")) ∧
        ∃ level, some level ∈ routeLevels ∧
          level.at? [.property "routes", .entry "main", .property "port"] =
            some (.simple info (some "80")) := by
  have hrules : ∀ type ∈ routeRules.schema.records, ∀ p ∈ type.properties, Unnamed p := by
    unfold Unnamed
    decide
  have htype : router ∈ routeRules.schema.records := by decide
  have hordered : ∀ level, some level ∈ routeLevels → level.isOrdered = true := by
    simp only [routeLevels, List.mem_cons, List.not_mem_nil, or_false, Option.some.injEq,
      forall_eq_or_imp, forall_eq]
    decide
  have hmerged : levels routeRules router routeLevels = .ok (some _, ⟨1, 0⟩) := rfl
  exact ⟨hrules, htype, hordered, _, _, hmerged, rfl, rfl, rfl,
    levels_texts hrules htype hordered hmerged rfl⟩

end ScopedConfig.Sample
