import ScopedConfig.Proofs.Checked
import ScopedConfig.Proofs.Levels
import ScopedConfig.Proofs.Position
import ScopedConfig.Proofs.Provenance
import ScopedConfig.Proofs.Run

/-!
# Reading back what was saved

A snapshot that was just saved is fresh, so no stale policy drops any of it. If the other policies
prefer the child, what was saved is found in the merged configuration at the same positions.
-/

namespace ScopedConfig

open Scope (Path)

namespace Merge

open Schema Stamp ScopedConfig.Except

/-! ## Merging a fresh snapshot -/

section
variable (rules : Rules) (target : Path)

/-- Where the node is merged as a property, stamped against the parent's, it is shown. -/
structure Reads (child : Node) : Prop where
  property : ∀ {owner place : String} {p : Property} {parent : Node} {previous : Option Node}
    {node : Node} {stale : Totals}, KeepsChild p = true → child.isOrdered = true →
    property rules owner place p parent
      (stamp rules.schema target (.property p) previous (some parent) child) = .ok (node, stale) →
    Shows rules.schema (.property p) (some parent) child node

variable {rules target}

theorem properties_reads {own : List (String × Node)} (hown : ∀ e ∈ own, Reads rules target e.2)
    {place : String} {type : Record} (htype : ∀ p ∈ type.properties, KeepsChild p = true)
    {parent : Node} {previous : Option Node} {merged : List (String × Node)} {stale : Totals}
    (hordered : ∀ e ∈ own, e.2.isOrdered = true)
    (h : properties rules place type (parent.properties?.getD [])
      (stampProperties rules.schema target (some type) previous (some parent) own) =
        .ok (merged, stale))
    {name : String} {child : Node} (hchild : own.lookup name = some child) :
    ∃ m, merged.lookup name = some m ∧
      Shows rules.schema (propertyRole (some type) name) (parent.property? name) child m := by
  have hmem := Keyed.mem_of_lookup hchild
  obtain ⟨hnone, -⟩ | ⟨c, n, hc, hn, htaken⟩ := properties_lookup name h
  · simp [lookup_stampProperties, hchild] at hnone
  · rw [lookup_stampProperties, hchild, Option.map_some, Option.some.injEq] at hc
    refine ⟨n, hn, ?_⟩
    obtain ⟨-, rfl⟩ | ⟨a, p, first, ha, hp, hproperty, -⟩ := htaken
    · rw [← hc]
      exact shows_stamp target _ _ _ (hordered _ hmem)
    · rw [← property?_eq_lookup] at ha
      have hrole : propertyRole (some type) name = .property p := by simp [propertyRole, hp]
      rw [hrole, Option.bind_some, ha] at hc
      rw [hrole, ha]
      rw [← hc] at hproperty
      exact (hown _ hmem).property (htype p (List.mem_of_find?_eq_some hp)) (hordered _ hmem)
        hproperty

theorem joined_reads {info info' : Info} {own : List (String × Node)} {declared : List String}
    (hown : ∀ e ∈ own, Reads rules target e.2) {place : String} {type : Record} {role : Role}
    (htype : ∀ p ∈ type.properties, KeepsChild p = true) {parent : Node} {previous : Option Node}
    {merged : List (String × Node)} {stale : Totals}
    (hordered : (Node.complex info own declared).isOrdered = true)
    (hrole : recordOf rules.schema role (.complex info own declared) = some type)
    (h : properties rules place type (parent.properties?.getD [])
      (stampProperties rules.schema target (some type) previous (some parent) own) =
        .ok (merged, stale)) :
    Shows rules.schema role (some parent) (.complex info own declared)
      (joined info' declared parent merged) := by
  refine shows_of_below trivial fun step child hchild => ?_
  cases step with
  | entry key => cases hchild
  | property name =>
    obtain ⟨m, hm, hshows⟩ := properties_reads hown htype
      (Node.complex_ordered_iff.1 hordered).2 h hchild
    refine ⟨m, Keyed.lookup_fillFrom_of_some _ hm, ?_⟩
    rw [roleBelow, hrole]
    exact hshows

theorem set_reads {own : List Node} {place : String} {p : Property}
    (hkeeps : KeepsChild p = true) (hkind : p.kind = .set) {parent : Node}
    {previous : Option (List Node)} (hordered : ∀ n ∈ own, n.isOrdered = true)
    {above keyed : List (String × Node)} {merged kept : List Node} {stale : Totals}
    (habove : keyItems rules place p (parent.items?.getD []) = .ok above)
    (hkeyed : keyItems rules place p
      (stampSet rules.schema target (.property p) previous parent.items? own) = .ok keyed)
    (h : items rules place p (effectiveItemPolicy p parent) above [] (keyed.map Prod.fst)
      (stampSet rules.schema target (.property p) previous parent.items? own) =
        .ok (merged, stale)) :
    ShowsItems rules.schema p (some parent) own (merged ++ kept) := by
  obtain ⟨hadd, hitem⟩ : p.policy.entryAdded = .add ∧ p.policy.item = .useChild := by
    simpa [KeepsChild, hkind] using hkeeps
  rw [effectiveItemPolicy_useChild hitem] at h
  intro key first hfirst
  -- Of the items with one key the first counts, before the stamp and after it.
  obtain ⟨n, hn, halike⟩ := withKey_alike (stampSet_alike rules.schema target _ _ _ own) hfirst
  have hlookup : keyed.lookup key = some n := by
    rw [lookup_keyItems hkeyed]
    exact hn
  have hincludes := includes_of_alike (hordered first (List.mem_of_find?_eq_some hfirst)) halike
  have hkey := (keyItems_key hkeyed _ (Keyed.mem_of_lookup hlookup)).2
  have hplain {n : Node} (h : rules.schema.itemKey p place n = .ok key) :
      rules.schema.itemKey p p.name n = .ok key := itemKey_eq_ok.2 (itemKey_eq_ok.1 h)
  rw [← keyItems_items hkeyed] at h
  obtain ⟨result, total, hresult, hmem⟩ := items_first (by simp) hlookup h
  obtain ⟨-, rfl⟩ | ⟨a, ha, rfl⟩ := item_useChild hadd hresult
  · exact ⟨n, List.mem_append_left _ (hmem n rfl), hincludes, .inl (hplain hkey)⟩
  · have hmember := keyItems_key habove _ (Keyed.mem_of_lookup ha)
    refine ⟨_, List.mem_append_left _ (hmem _ rfl), ?_, ?_⟩
    · intro name value hvalue
      obtain ⟨other, hother, hsame⟩ := hincludes name value hvalue
      exact ⟨other, property?_backfill a hother, hsame⟩
    · have hkindItem := keyItems_kind hkeyed n
        (List.mem_of_find?_eq_some hn)
      obtain hkept | haccident := itemKey_backfill hkindItem hmember.2 hkey
      · exact .inl (hplain hkept)
      · exact .inr ⟨a, hmember.1, haccident⟩

theorem effectivePolicy_useChild {p : Property} {parent : Node} (h : KeepsChild p = true)
    (hkind : p.kind = .simple ∨ p.kind = .list) : effectivePolicy p parent = .useChild := by
  unfold effectivePolicy
  split
  · rcases hkind with hkind | hkind <;> rw [hkind] <;> rfl
  · rcases hkind with hkind | hkind <;> simpa [KeepsChild, hkind] using h

theorem chooseComplex_ne_parent {place : String} {p : Property} {parent : Node}
    (h : KeepsChild p = true) (hkind : p.kind = .complex) :
    chooseComplex rules place p parent ≠ .ok .parent := by
  have hpolicy : effectivePolicy p parent = .merge ∨ effectivePolicy p parent = .useChild := by
    unfold effectivePolicy
    split
    · rw [hkind]
      cases p.polymorphic
      · exact .inl rfl
      · exact .inr rfl
    · simpa [KeepsChild, hkind] using h
  unfold chooseComplex
  rcases hpolicy with hpolicy | hpolicy <;> rw [hpolicy]
  · cases p.polymorphic with
    | true => simp [Error.misuse]
    | false => cases rules.schema.require p.typeName <;> simp [Except.map]
  · simp

theorem map_reads {info info' : Info} {own : List (String × Node)} {place : String} {p : Property}
    (hkeeps : KeepsChild p = true) (hkind : p.kind = .map) {parent : Node}
    {previous : Option Node} (hordered : ∀ e ∈ own, e.2.isOrdered = true)
    {merged kept : List (String × Node)} {stale : Totals}
    (h : entries rules place p (effectiveItemPolicy p parent) (parent.entries?.getD [])
      (stampEntries rules.schema target (.property p) previous (some parent) own) =
        .ok (merged, stale)) :
    Shows rules.schema (.property p) (some parent) (.map info (some own))
      (.map info' (some (Keyed.fillFrom kept merged))) := by
  obtain ⟨hadd, hitem⟩ : p.policy.entryAdded = .add ∧ p.policy.item = .useChild := by
    simpa [KeepsChild, hkind] using hkeeps
  rw [effectiveItemPolicy_useChild hitem] at h
  refine shows_of_below trivial fun step child hchild => ?_
  cases step with
  | property name => cases hchild
  | entry key =>
    have hmem : (key, child) ∈ own := Keyed.mem_of_lookup hchild
    have hchildOrdered := hordered _ hmem
    have hstamped :=
      lookup_stampEntries rules.schema target (.property p) previous (some parent) own key
    rw [show own.lookup key = some child from hchild, Option.map_some] at hstamped
    obtain ⟨result, total, hresult, hlookup⟩ := entries_lookup hstamped h
    obtain ⟨-, rfl⟩ | ⟨a, -, rfl⟩ := item_useChild hadd hresult
    · exact ⟨_, Keyed.lookup_fillFrom_of_some _ (hlookup _ rfl),
        shows_stamp target _ _ _ hchildOrdered⟩
    · exact ⟨_, Keyed.lookup_fillFrom_of_some _ (hlookup _ rfl),
        shows_backfill target _ _ _ a hchildOrdered⟩

theorem reads_of_values {child : Node}
    (hvalues : ∀ {place : String} {p : Property} {parent : Node} {previous : Option Node}
      {node : Node} {inner : Totals}, KeepsChild p = true → child.isOrdered = true →
      child.kind = p.kind → ValuesTo rules place p parent
        (stamp rules.schema target (.property p) previous (some parent) child) node inner →
      Shows rules.schema (.property p) (some parent) child node) : Reads rules target child := by
  refine ⟨fun {owner place p parent previous node stale} hkeeps hordered h => ?_⟩
  have halike := alike_stamp rules.schema target (.property p) previous (some parent) child
  obtain ⟨⟨-, hkind⟩, ⟨habsent, rfl⟩ | ⟨-, rfl⟩ | ⟨-, inner, hinner⟩⟩ :=
    property_of_fresh (isStale_stamp rules target (.property p) previous parent child) h
  · rw [halike.isAbsent] at habsent
    refine shows_of_below ?_ fun step child hchild => ?_
    · cases child with
      | simple | complex => simp [Node.isAbsent] at habsent
      | list _ own | set _ own | map _ own =>
        cases own with
        | none => trivial
        | some own => simp [Node.isAbsent] at habsent
    · rw [Node.child?_of_absent habsent] at hchild
      cases hchild
  · exact shows_stamp target _ _ _ hordered
  · rw [kind_stamp] at hkind
    exact hvalues hkeeps hordered hkind hinner

variable (target) in
theorem reads (hpolicies : ∀ r ∈ rules.schema.records, ∀ p ∈ r.properties, KeepsChild p = true)
    (child : Node) : Reads rules target child := by
  induction child using Node.tree_induction with
  | simple info text =>
    apply reads_of_values
    intro place p parent previous node inner hkeeps hordered hkind hinner
    obtain ⟨htext, -⟩ := hinner
    rw [effectivePolicy_useChild hkeeps (.inl hkind.symm)] at htext
    cases htext
    exact shows_stamp target (.property p) previous (some parent) hordered
  | absentList | list =>
    apply reads_of_values
    intro place p parent previous node inner hkeeps hordered hkind hinner
    obtain ⟨rfl, -⟩ := hinner
    rw [effectivePolicy_useChild hkeeps (.inr hkind.symm)]
    exact shows_stamp target (.property p) previous (some parent) hordered
  | absentSet | absentMap =>
    apply reads_of_values
    intro place p parent previous node inner hkeeps hordered hkind hinner
    obtain ⟨rfl, -⟩ := hinner
    exact shows_stamp target (.property p) previous (some parent) hordered
  | complex info own declared ih =>
    apply reads_of_values
    intro place p parent previous node inner hkeeps hordered hkind hinner
    obtain ⟨-, rfl, -⟩ | ⟨hchoice, -⟩ | ⟨type, merged, hchoice, hmerged, rfl⟩ := hinner
    · exact shows_stamp target _ _ _ hordered
    · exact absurd hchoice (chooseComplex_ne_parent hkeeps hkind.symm)
    · obtain ⟨hmono, hfind⟩ := chooseComplex_combine hchoice
      have hrole := recordOf_property (.complex info own declared) hkind.symm hmono hfind
      rw [hrole] at hmerged
      exact joined_reads ih (hpolicies type (mem_records hfind)) hordered hrole hmerged
  | set info own ih =>
    apply reads_of_values
    intro place p parent previous node inner hkeeps hordered hkind hinner
    obtain ⟨above, keyed, merged, habove, hkeyed, hmerged, rfl⟩ := hinner
    refine shows_of_below ?_ fun step child hchild => ?_
    · rintro q ⟨⟩ - -
      exact ⟨_, _, rfl, set_reads hkeeps hkind.symm (Node.set_ordered_iff.1 hordered) habove hkeyed
        hmerged⟩
    · cases step <;> cases hchild
  | map info own ih =>
    apply reads_of_values
    intro place p parent previous node inner hkeeps hordered hkind hinner
    obtain ⟨merged, -, -, hmerged, rfl⟩ := hinner
    exact map_reads hkeeps hkind.symm (Node.map_ordered_iff.1 hordered).2 hmerged

/-- A snapshot is shown in what it merges to with the levels that it was stamped against. -/
theorem levelsFrom_shows
    (hpolicies : ∀ r ∈ rules.schema.records, ∀ p ∈ r.properties, KeepsChild p = true)
    {type : Record} (htype : type ∈ rules.schema.records) {previous above merged : Option Node}
    {current : Node} {stale : Totals} (hordered : current.isOrdered = true)
    (h : levelsFrom rules type above
      [some (forSave rules.schema type previous current above target)] = .ok (merged, stale)) :
    ∃ node, merged = some node ∧ Shows rules.schema (.type type) above current node := by
  cases above with
  | none =>
    cases h
    exact ⟨_, rfl, shows_stamp target _ _ _ hordered⟩
  | some above =>
    obtain ⟨⟨node, first⟩, hnode, h⟩ := bind_eq_ok.1 h
    cases h
    refine ⟨node, rfl, ?_⟩
    obtain ⟨-, info, own, declared, nodes, hstamped, hnodes, rfl⟩ := complex_ok hnode
    cases current with
    | complex info' own' declared' =>
      simp only [forSave, stamp, Node.complex.injEq] at hstamped
      obtain ⟨-, rfl, rfl⟩ := hstamped
      exact joined_reads (fun e _ => reads target hpolicies e.2) (hpolicies type htype) hordered rfl
        hnodes
    | simple | list | set | map =>
      have hkind := congrArg Node.kind hstamped
      rw [forSave, kind_stamp] at hkind
      simp [Node.kind] at hkind

end

end Merge

/-! ## Saving and loading -/

namespace Store

open Merge (Totals)
open ScopedConfig.Except

variable {rules : Rules} {st saved : Store} {path : Path} {typeName : String}

theorem ancestor_saved {type : Schema.Record} {node stamped : Node} {loaded : Option Int}
    (hst : st.Keeps) (hsave : st.saveWith rules path typeName node loaded = .ok (stamped, saved)) :
    saved.ancestor rules type path = st.ancestor rules type path := by
  cases hparent : path.parent? with
  | none => simp only [ancestor, hparent]
  | some parent =>
    exact ancestor_congr hparent fun q hq =>
      (load_saved hst hsave).2 q (Path.ne_of_mem_parent hparent hq)

theorem resolve_held {type : Schema.Record} {above held : Option Node}
    {resolved : Option Resolved} {stale : Totals}
    (htype : rules.rootType path typeName = .ok type)
    (habove : st.ancestor rules type path = .ok above) (hheld : st.load path = .ok held)
    (h : st.resolve rules path typeName = .ok (resolved, stale)) :
    ∃ last, Merge.levelsFrom rules.toRules type above [held] =
      .ok (resolved.map Resolved.node, last) := by
  obtain ⟨type', all, merged, htype', hall, hmerged, rfl⟩ := resolve_ok.1 h
  obtain rfl : type = type' := Except.ok.inj (htype.symm.trans htype')
  have hnode : (merged.map fun node => (⟨node, node.definedAt != path,
      ((all.getLast?.bind id).map Node.version).getD 0⟩ : Resolved)).map Resolved.node =
        merged := by
    cases merged <;> rfl
  rw [hnode]
  cases hparent : path.parent? with
  | none =>
    simp only [ancestor, hparent, Except.ok.injEq] at habove
    rw [Path.ancestry_of_root hparent, List.mapM_cons, hheld] at hall
    cases habove
    cases hall
    exact ⟨stale, hmerged⟩
  | some parent =>
    obtain ⟨levels, held', hlevels, hheld', rfl⟩ := mapM_ancestry_ok hparent hall
    obtain rfl : held = held' := Except.ok.inj (hheld.symm.trans hheld')
    obtain ⟨upper, first, last, hfirst, hlast, -⟩ := Merge.levels_snoc_ok hmerged
    obtain ⟨levels', total, hlevels', hmerged'⟩ := ancestor_ok hparent habove
    obtain rfl : levels = levels' := Except.ok.inj (hlevels.symm.trans hlevels')
    obtain rfl : upper = above := congrArg Prod.fst (Except.ok.inj (hfirst.symm.trans hmerged'))
    exact ⟨last, hlast⟩

end Store

open Merge (KeepsChild Shows)
open ScopedConfig.Except

/-- What is saved can be read back. Where the policies prefer the child, whatever is above and
however the stale policies are, a load right after a save shows every text and every list of the
saved node at its position, and for every key of a declared set an item that includes the first
saved one with it. That item has the key again, unless an item above is told apart by a complex node
that happens to have the content of the saved one. -/
theorem save_read_back {rules : Rules} {st : Store} {capacity : Nat} {before : List Call}
    {s : Service} {path : Path} {typeName : String} {node stamped : Node} {loaded : Option Int}
    {saved : Answer Node} {resolved : Option Resolved}
    (hpolicies : ∀ r ∈ rules.schema.records, ∀ p ∈ r.properties, KeepsChild p = true)
    (hst : st.Keeps) (hs : (Service.start st capacity).after rules before = s)
    (hordered : node.isOrdered = true)
    (hsave : s.saveWith rules path typeName node loaded = saved) (hok : saved.result = .ok stamped)
    (hload : (saved.service.load rules path typeName).result = .ok resolved) :
    ∃ type above r, rules.schema.find? typeName = some type ∧
      (s.ancestor rules type path).1 = .ok above ∧ resolved = some r ∧
      Shows rules.schema (.type type) above node r.node := by
  subst hs hsave
  obtain ⟨-, hover⟩ := Service.run_spec rules before (Service.start_over st capacity) hst
  have hst' := Store.after_keeps rules before hst
  obtain ⟨st', hsaved, hoverSaved⟩ := Service.saveWith_ok hover hst' hok
  obtain ⟨stale, hresolve, -⟩ := Service.load_ok hoverSaved hload
  obtain ⟨type, previous, above, htype, -, habove, hstamped, -⟩ := Store.saveWith_ok hsaved
  have hfind := Merge.require_ok (Rules.rootType_ok.1 htype).2.2
  have habove' := (Store.ancestor_saved hst' hsaved).trans habove
  obtain ⟨last, hlast⟩ :=
    Store.resolve_held htype habove' (Store.load_saved hst' hsaved).1 hresolve
  rw [hstamped] at hlast
  obtain ⟨n, hn, hshows⟩ :=
    Merge.levelsFrom_shows hpolicies (Schema.mem_records hfind) hordered hlast
  obtain ⟨r, rfl, rfl⟩ := Option.map_eq_some_iff.1 hn
  refine ⟨type, above, r, hfind, ?_, rfl, hshows⟩
  rw [(Service.ancestor_spec rules type path hover).1, habove]

namespace Sample

open Schema (Record Property)

def host : Record :=
  { name := "Host", identity := some "id", properties := [.simple "id" "string"] }

def inventory : Record :=
  { name := "App", properties := [(Property.set "hosts" .complex "Host").asPolymorphic] }

def hostRules : Rules :=
  { schema := .insert (.insert .empty inventory) host, strategies := .standard }

def string (value : String) : Node :=
  .simple { definedAt := global, typeName := "string" } (some value)

def labelled (typeName name : String) (value : Node) : Node :=
  .complex { definedAt := global, typeName } [(name, value)] [name]

def hosts (items : List Node) : Node :=
  .complex { definedAt := global, typeName := "App" }
    [("hosts", .set { definedAt := global, typeName := "Host", propertyName := some "hosts" }
      (some items))] ["hosts"]

/-- A host of the type that the schema knows. -/
def named (name : String) : Node := labelled "Host" "id" (string name)

def savedHosts (above own : List Node) : Answer Node :=
  ((Service.start (.memory .empty) 2).after hostRules [.save global "App" (hosts above)]).save
    hostRules alice "App" (hosts own)

/-- The user's host is found beside the global one. -/
theorem hosts_read_back :
    (∀ r ∈ hostRules.schema.records, ∀ p ∈ r.properties, KeepsChild p = true) ∧
      ∃ r info items,
        ((savedHosts [named "a"] [named "b"]).service.load hostRules alice "App").result =
          .ok (some r) ∧
        r.node.at? [.property "hosts"] = some (.set info (some items)) ∧
        ∃ n ∈ items, Merge.Includes (named "b") n := by
  have hpolicies : ∀ r ∈ hostRules.schema.records, ∀ p ∈ r.properties, KeepsChild p = true := by
    decide
  have hok : (savedHosts [named "a"] [named "b"]).result = .ok _ := rfl
  have hload :
      ((savedHosts [named "a"] [named "b"]).service.load hostRules alice "App").result = .ok _ :=
    rfl
  obtain ⟨type, above, r, htype, -, hr, hshows⟩ :=
    @save_read_back hostRules (.memory .empty) 2 [.save global "App" (hosts [named "a"])] _ alice
      "App" (hosts [named "b"]) _ none _ _ hpolicies (Store.keeps_memory _) rfl (by decide) rfl hok
      hload
  cases htype
  obtain ⟨m, hm, hkept⟩ := hshows [.property "hosts"] _ rfl
  obtain ⟨info, items, rfl, hitems⟩ := hkept _ rfl rfl (by
    simp only [List.forall_mem_singleton]
    exact ⟨_, rfl⟩)
  obtain ⟨n, hn, hincludes, -⟩ := hitems "\"b\"" (named "b") rfl
  exact ⟨hpolicies, r, info, items, hload.trans (by rw [hr]), hm, n, hn, hincludes⟩

/-- A complex node that stands as a user's host and as the name of a global host. -/
def nickname : Node := labelled "Alias" "name" (string "a")

/-- The keys of the set at a position. -/
def keysAt (p : Property) (steps : List Step) (n : Node) : List String :=
  (((n.at? steps).bind Node.items?).getD []).map (Stamp.keyOf hostRules.schema (.property p))

/-- The two hosts have one key, so the user's takes the name that it lacks from the global one, and
has another key then. -/
theorem shared_key_is_lost :
    ¬ ∀ (rules : Rules) (st : Store) (capacity : Nat) (before : List Call) (s : Service)
        (path : Path) (typeName : String) (node stamped : Node) (saved : Answer Node)
        (r : Resolved) (type : Record) (steps : List Step) (info : Info) (own : List Node)
        (p : Property) (key : String) (first : Node),
      (∀ t ∈ rules.schema.records, ∀ q ∈ t.properties, KeepsChild q = true) → st.Keeps →
      (∀ q, st.load q = .ok none) → (Service.start st capacity).after rules before = s →
      (∀ call ∈ before, call.isOrdered = true) → node.isOrdered = true →
      s.save rules path typeName node = saved → saved.result = .ok stamped →
      (saved.service.load rules path typeName).result = .ok (some r) →
      rules.schema.find? typeName = some type → node.at? steps = some (.set info (some own)) →
      Stamp.roleAt rules.schema (.type type) node steps = .property p → p.kind = .set →
      (∀ item ∈ own, ∃ k, rules.schema.itemKey p p.name item = .ok k) →
      Stamp.withKey rules.schema (.property p) (some own) key = some first →
      ∃ info' items, r.node.at? steps = some (.set info' (some items)) ∧
        ∃ n ∈ items, Merge.Includes first n ∧ rules.schema.itemKey p p.name n = .ok key := by
  intro h
  have hlost : (((savedHosts [labelled "Host" "id" nickname] [nickname]).service.load hostRules
      alice "App").result.map fun r => r.map fun r =>
        (keysAt (Property.set "hosts" .complex "Host").asPolymorphic [.property "hosts"]
          r.node).contains nickname.fingerprint) = .ok (some false) := by rfl
  obtain ⟨r, hr⟩ : ∃ r, ((savedHosts [labelled "Host" "id" nickname] [nickname]).service.load
      hostRules alice "App").result = .ok (some r) := ⟨_, rfl⟩
  obtain ⟨info, items, hat, n, hn, -, hkey⟩ :=
    h hostRules (.memory .empty) 2 [.save global "App" (hosts [labelled "Host" "id" nickname])] _
      alice "App" (hosts [nickname]) _ (savedHosts [labelled "Host" "id" nickname] [nickname]) r
      inventory [.property "hosts"] _ [nickname] _ nickname.fingerprint nickname (by decide)
      (Store.keeps_memory _) (fun _ => rfl) rfl (by decide) (by decide) rfl rfl hr rfl rfl rfl rfl
      (by simp only [List.forall_mem_singleton]; exact ⟨_, rfl⟩) rfl
  rw [hr] at hlost
  have hmem : nickname.fingerprint ∈
      keysAt (Property.set "hosts" .complex "Host").asPolymorphic [.property "hosts"] r.node := by
    rw [keysAt, hat, ← Merge.keyOf_eq hkey]
    exact List.mem_map_of_mem hn
  simp [Except.map, hmem] at hlost

end Sample

end ScopedConfig
