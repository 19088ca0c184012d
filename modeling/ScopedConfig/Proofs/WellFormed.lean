import ScopedConfig.Proofs.Everywhere

/-!
# Names of properties

A node is well-formed if, at every depth, the properties of a complex node carry the names that they
are stored under and the declared names are names of properties. Everything that puts nodes together
from well-formed parts keeps this.
-/

namespace ScopedConfig

namespace Node

/-- The declared names are names of properties, and each property carries its own. -/
structure Labelled (own : List (String × Node)) (declared : List String) : Prop where
  declared : declared ⊆ own.map Prod.fst
  names : ∀ e ∈ own, e.2.info.propertyName = some e.1

def IsLabelled : Node → Prop
  | complex _ own declared => Labelled own declared
  | simple .. | list .. | set .. | map .. => True

/-- All complex nodes of the tree have their names in step with their properties. -/
abbrev IsWellFormed : Node → Prop := Everywhere IsLabelled

variable {n child : Node} {name : String} {own : List (String × Node)} {declared : List String}

/-! ## Single nodes -/

theorem isWellFormed_simple (info : Info) (text : Option String) :
    (simple info text).IsWellFormed :=
  everywhere_simple.2 trivial

theorem isWellFormed_emptyComplex (scope : Scope.Path) (typeName : String) :
    (emptyComplex scope typeName).IsWellFormed :=
  everywhere_complex.2 ⟨⟨List.nil_subset _, List.forall_mem_nil _⟩, List.forall_mem_nil _⟩

theorem isLabelled_withInfo (i : Info) (n : Node) : (n.withInfo i).IsLabelled ↔ n.IsLabelled := by
  cases n <;> rfl

theorem isLabelled_mapInfo {f : Info → Info} (hf : ∀ i, (f i).propertyName = i.propertyName)
    (n : Node) : (n.mapInfo f).IsLabelled ↔ n.IsLabelled := by
  cases n with
  | simple => exact .rfl
  | complex i own declared =>
    have hnames : (∀ e ∈ mapInfoFields f own, e.2.info.propertyName = some e.1) ↔
        ∀ e ∈ own, e.2.info.propertyName = some e.1 := by
      simp only [mapInfoFields_eq, List.forall_mem_map, info_mapInfo, hf]
    rw [mapInfo, IsLabelled, IsLabelled]
    constructor
    · exact fun h => ⟨keys_mapInfoFields own ▸ h.declared, hnames.1 h.names⟩
    · exact fun h => ⟨(keys_mapInfoFields own).symm ▸ h.declared, hnames.2 h.names⟩
  | list _ own | set _ own | map _ own => cases own <;> exact .rfl

/-! ## Setting a property -/

theorem IsWellFormed.withPropertyName (h : n.IsWellFormed) (name : String) :
    (n.withPropertyName name).IsWellFormed :=
  (everywhere_withInfo (isLabelled_withInfo _ n)).2 h

theorem Labelled.insert (h : Labelled own declared) (name : String) (child : Node) :
    Labelled (Keyed.insert name (child.withPropertyName name) own) declared where
  declared _ hd := Keyed.keys_insert.2 (.inr (h.declared hd))
  names e he := by
    rcases Keyed.mem_keys_insert he with rfl | he
    · simp [withPropertyName]
    · exact h.names e he

theorem Labelled.declare (h : Labelled own declared) (hname : name ∈ own.map Prod.fst) :
    Labelled own (Keyed.insertKey name declared) where
  declared _ hd := by
    rcases Keyed.mem_insertKey.1 hd with rfl | hd
    · exact hname
    · exact h.declared hd
  names := h.names

theorem IsWellFormed.withInherited (h : n.IsWellFormed) (hchild : child.IsWellFormed)
    (name : String) : (n.withInherited name child).IsWellFormed := by
  cases n with
  | complex i own declared =>
    obtain ⟨hhere, hown⟩ := everywhere_complex.1 h
    exact everywhere_complex.2 ⟨hhere.insert name child,
      insert_everywhere hown (hchild.withPropertyName name)⟩
  | simple | list | set | map => exact h

theorem IsWellFormed.withProperty (h : n.IsWellFormed) (hchild : child.IsWellFormed)
    (name : String) : (n.withProperty name child).IsWellFormed := by
  cases n with
  | complex i own declared =>
    obtain ⟨hhere, hown⟩ := everywhere_complex.1 h
    exact everywhere_complex.2 ⟨(hhere.insert name child).declare (Keyed.keys_insert.2 (.inl rfl)),
      insert_everywhere hown (hchild.withPropertyName name)⟩
  | simple | list | set | map => exact h

/-! ## Saving and merging -/

theorem IsWellFormed.stamp (h : n.IsWellFormed) (s : Schema) (target : Scope.Path)
    (role : Stamp.Role) (previous ancestor : Option Node) :
    (Stamp.stamp s target role previous ancestor n).IsWellFormed := by
  have hkeeps (m : Node) : (m.mapInfo (.unstamped target)).IsWellFormed ↔ m.IsWellFormed :=
    everywhere_mapInfo (isLabelled_mapInfo fun _ => rfl)
  rw [← hkeeps, Stamp.unstamped_stamp, hkeeps]
  exact h

theorem mergeable_isLabelled : Merge.Mergeable IsLabelled where
  text _ _ := trivial
  set _ _ := trivial
  map _ _ := trivial
  complex {info own merged declared parent} hparent hchild hnames hinfos := by
    refine ⟨List.Subset.trans hchild.declared hnames, fun e he => ?_⟩
    obtain ⟨n, hn, hinfo⟩ := hinfos e he
    rw [hinfo]
    rcases List.mem_append.1 hn with hn | hn
    · cases parent with
      | complex => exact hparent.names _ hn
      | simple | list | set | map => cases hn
    · exact hchild.names _ hn

/-- Setting and inheriting a property, stamping for a save and merging levels make well-formed nodes
of well-formed ones. -/
theorem isWellFormed_preserved :
    (∀ (n child : Node) (name : String), n.IsWellFormed → child.IsWellFormed →
      (n.withProperty name child).IsWellFormed ∧ (n.withInherited name child).IsWellFormed) ∧
    (∀ (s : Schema) (type : Schema.Record) (previous : Option Node) (current : Node)
      (ancestor : Option Node) (target : Scope.Path), current.IsWellFormed →
      (Stamp.forSave s type previous current ancestor target).IsWellFormed) ∧
    ∀ (rules : Merge.Rules) (type : Schema.Record) (all : List (Option Node)) (merged : Node)
      (stale : Merge.Totals), (∀ level, some level ∈ all → level.IsWellFormed) →
      Merge.levels rules type all = .ok (some merged, stale) → merged.IsWellFormed := by
  refine ⟨fun n child name hn hchild => ⟨hn.withProperty hchild name, hn.withInherited hchild name⟩,
    ?_, ?_⟩
  · exact fun s type previous current ancestor target h =>
      h.stamp s target (.type type) previous ancestor
  · exact fun rules type all merged stale hall h =>
      Merge.levels_everywhere mergeable_isLabelled hall h

end Node

namespace Sample

open Node

/-- The port that the machine has at the global scope. -/
def globalMachine : Node := (emptyComplex global "Machine").withProperty "port" (word 1 "80")

def aliceMachine : Node := (emptyComplex alice "Machine").withProperty "host" (word 1 "a")

/-- A machine that is built at two scopes, merged and saved again. -/
theorem machine_merged_wellFormed :
    ∃ merged, Merge.levels ⟨fleetSchema, .empty⟩ machine
        [some globalMachine, none, some aliceMachine] = .ok (some merged, .zero) ∧
      (Stamp.forSave fleetSchema machine none merged (some globalMachine) alice).IsWellFormed ∧
      merged = aliceMachine.withInherited "port" (word 1 "80") ∧ merged.IsWellFormed := by
  obtain ⟨hset, hsave, hmerge⟩ := isWellFormed_preserved
  have hglobal : globalMachine.IsWellFormed :=
    (hset _ _ "port" (isWellFormed_emptyComplex _ _) (isWellFormed_simple _ _)).1
  have halice : aliceMachine.IsWellFormed :=
    (hset _ _ "host" (isWellFormed_emptyComplex _ _) (isWellFormed_simple _ _)).1
  have hmerged := hmerge ⟨fleetSchema, .empty⟩ machine
    [some globalMachine, none, some aliceMachine]
    (aliceMachine.withInherited "port" (word 1 "80")) .zero (by
      intro level hlevel
      simp only [List.mem_cons, Option.some.injEq, List.not_mem_nil, reduceCtorEq] at hlevel
      rcases hlevel with rfl | h | rfl | h
      · exact hglobal
      · cases h
      · exact halice
      · cases h) rfl
  exact ⟨_, rfl, hsave fleetSchema machine none _ (some globalMachine) alice hmerged, rfl, hmerged⟩

end Sample

end ScopedConfig
