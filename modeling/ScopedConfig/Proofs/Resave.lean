import ScopedConfig.Proofs.ReadBack
import ScopedConfig.Proofs.Saved
import ScopedConfig.Proofs.Stable
import ScopedConfig.Proofs.Staleness

/-!
# Saving back what was loaded

A configuration that is loaded and saved back unedited becomes the path's own: what was inherited is
stored at the path then. Loading it again shows the same.
-/

namespace ScopedConfig

open Scope (Path)

namespace Merge

open Schema Node ScopedConfig.Except

variable {rules : Rules} {typeName : String} {type : Record} {target : Path}

theorem complex_distinct (hrules : Steady rules) (htype : rules.schema.find? typeName = some type)
    {place : String} {parent child node : Node} {stale : Totals}
    (hparent : rules.schema.isDistinct type parent = true)
    (hchild : rules.schema.isDistinct type child = true)
    (h : complex rules place type parent child = .ok (node, stale)) :
    rules.schema.isDistinct type node = true := by
  obtain ⟨-, info, own, declared, merged, rfl, hmerged, rfl⟩ := complex_ok h
  exact joined_distinct htype (fun e _ => keeps_distinct hrules e.2) hparent hchild hmerged

/-- What the merge of levels needs to be merged into once more. -/
structure Tame (s : Schema) (type : Record) (n : Node) : Prop where
  ordered : n.isOrdered = true
  distinct : s.isDistinct type n = true

theorem levels_tame (hrules : Steady rules) (htype : rules.schema.find? typeName = some type)
    {above merged : Option Node} {levels : List (Option Node)} {stale : Totals}
    (habove : ∀ n, above = some n → Tame rules.schema type n)
    (hlevels : ∀ n, some n ∈ levels → Tame rules.schema type n)
    (h : levelsFrom rules type above levels = .ok (merged, stale)) :
    ∀ n, merged = some n → Tame rules.schema type n := by
  rintro n rfl
  refine levelsFrom_induction (motive := Tame rules.schema type) ?_ habove hlevels h
  intro parent child node _ hparent hchild hmerged
  exact ⟨complex_ordered hparent.ordered hchild.ordered hmerged,
    complex_distinct hrules htype hparent.distinct hchild.distinct hmerged⟩

theorem complex_again {above node again : Node} {previous : Option Node}
    (hinherits : Inherits rules target type above node) {stale : Totals} {place : String}
    (h : complex rules place type above
      (Stamp.forSave rules.schema type previous node (some above) target) = .ok (again, stale)) :
    again.Alike node := by
  obtain ⟨-, info, own, declared, merged, hstamped, hmerged, rfl⟩ := complex_ok h
  cases node with
  | complex info' own' declared' =>
    simp only [Stamp.forSave, Stamp.stamp, Node.complex.injEq] at hstamped
    obtain ⟨rfl, rfl, rfl⟩ := hstamped
    exact joined_stays hinherits (fun _ => rfl) hmerged
  | simple | list | set | map =>
    have hkind := congrArg Node.kind hstamped
    rw [Stamp.forSave, Stamp.kind_stamp] at hkind
    simp [Node.kind] at hkind

/-- A merge that is stamped against the upper side and merged into it again is what it was, and so
is the upper side alone. -/
theorem levelsFrom_again (hrules : Steady rules) (htype : rules.schema.find? typeName = some type)
    {above held merged : Option Node} {node : Node} {stale : Totals}
    (habove : ∀ n, above = some n → Tame rules.schema type n)
    (hnode : levelsFrom rules type above [held] = .ok (some node, stale)) {previous : Option Node}
    {stale' : Totals} (h : levelsFrom rules type above
      [some (Stamp.forSave rules.schema type previous node above target)] = .ok (merged, stale')) :
    ∃ again, merged = some again ∧ again.Alike node := by
  cases above with
  | none =>
    cases h
    exact ⟨_, rfl, Stamp.alike_stamp rules.schema target _ _ _ node⟩
  | some above =>
    obtain ⟨hordered, hdistinct⟩ := habove above rfl
    obtain ⟨⟨again, first⟩, hagain, h⟩ := bind_eq_ok.1 h
    cases h
    refine ⟨again, rfl, complex_again ?_ hagain⟩
    cases held with
    | none =>
      cases hnode
      exact inherits_itself htype (fun e _ => stays_itself target hrules e.2) hordered hdistinct
    | some held =>
      obtain ⟨⟨joint, last⟩, hjoint, hnode⟩ := bind_eq_ok.1 hnode
      cases hnode
      obtain ⟨-, info, own, declared, nodes, rfl, hnodes, rfl⟩ := complex_ok hjoint
      exact inherits_joined hrules htype (fun e _ => merge_stays target hrules e.2) hordered
        hdistinct hnodes

end Merge

namespace Store

open Merge (Totals Steady Tame)

variable {rules : Rules} {st : Store} {path : Path} {typeName : String} {type : Schema.Record}

theorem ancestor_tame (hrules : Steady rules.toRules)
    (htype : rules.schema.find? typeName = some type)
    (hstored : ∀ q ∈ path.ancestry, ∀ n, st.stored? q = some n → Tame rules.schema type n)
    {above : Option Node} (h : st.ancestor rules type path = .ok above) :
    ∀ n, above = some n → Tame rules.schema type n := by
  cases hparent : path.parent? with
  | none =>
    simp only [ancestor, hparent, Except.ok.injEq] at h
    simp [← h]
  | some parent =>
    obtain ⟨levels, total, hlevels, hmerged⟩ := ancestor_ok hparent h
    refine Merge.levels_tame hrules htype (by simp) (fun n hn => ?_) hmerged
    obtain ⟨q, hq, hheld⟩ := mem_of_mapM hlevels hn
    refine hstored q ?_ n hheld
    rw [Path.ancestry_of_parent hparent]
    exact List.mem_append_left _ hq

/-- The node that a load shows has its keys in order, and stays if it is saved at the path. -/
theorem resolve_again (hrules : Steady rules.toRules) (hst : st.Keeps)
    (hstored : ∀ type, rules.schema.find? typeName = some type → ∀ q ∈ path.ancestry, ∀ n,
      st.stored? q = some n → Tame rules.schema type n)
    {r : Resolved} {stale : Totals} (hr : st.resolve rules path typeName = .ok (some r, stale))
    {stamped : Node} {loaded : Option Int} {saved : Store}
    (hsave : st.saveWith rules path typeName r.node loaded = .ok (stamped, saved))
    {second : Option Resolved} {stale' : Totals}
    (hsecond : saved.resolve rules path typeName = .ok (second, stale')) :
    r.node.isOrdered = true ∧ ∃ r', second = some r' ∧ r'.node.Alike r.node := by
  obtain ⟨type, previous, above, htype, hheld, habove, rfl, -⟩ := saveWith_ok hsave
  have hfind := Merge.require_ok (Rules.rootType_ok.1 htype).2.2
  have hstored := hstored type hfind
  have htame := ancestor_tame hrules hfind hstored habove
  obtain ⟨last, hnode⟩ := resolve_held htype habove hheld hr
  have habove' := (ancestor_saved hst hsave).trans habove
  obtain ⟨last', hagain⟩ := resolve_held htype habove' (load_saved hst hsave).1 hsecond
  have hpath : ∀ n, some n ∈ [previous] → Tame rules.schema type n := by
    intro n hn
    obtain rfl : some n = previous := by simpa using hn
    exact hstored path (Path.mem_ancestry_self path) n (stored?_eq_some.2 hheld)
  refine ⟨(Merge.levels_tame hrules hfind htame hpath hnode r.node rfl).ordered, ?_⟩
  obtain ⟨again, hmerged, halike⟩ := Merge.levelsFrom_again hrules hfind htame hnode hagain
  obtain ⟨r', rfl, rfl⟩ := Option.map_eq_some_iff.1 hmerged
  exact ⟨r', rfl, halike⟩

end Store

open Merge (Steady)

/-- Saving back what was loaded changes nothing that a load shows, and no pair is stale but those
above the path. The schema uses no strategy and no polymorphic set, and no set of the levels that
are merged holds two items with one key. -/
theorem save_loaded_back {rules : Rules} {st : Store} {capacity : Nat} {before : List Call}
    {s : Service} {path : Path} {typeName : String} {first : Answer (Option Resolved)}
    {r : Resolved} {saved : Answer Node} {stamped : Node} {second : Option Resolved}
    (hrules : Steady rules.toRules) (hst : st.Keeps) (hempty : ∀ q, st.load q = .ok none)
    (hs : (Service.start st capacity).after rules before = s)
    (hordered : ∀ call ∈ before, call.isOrdered = true)
    (hdistinct : ∀ type, rules.schema.find? typeName = some type → ∀ q ∈ path.ancestry, ∀ n,
      s.store.load q = .ok (some n) → rules.schema.isDistinct type n = true)
    (hfirst : s.load rules path typeName = first) (hr : first.result = .ok (some r))
    (hsave : first.service.save rules path typeName r.node = saved)
    (hok : saved.result = .ok stamped)
    (hsecond : (saved.service.load rules path typeName).result = .ok second) :
    (∃ r', second = some r' ∧ r'.node.sameContent r.node = true) ∧
      (path.parent? = none → (saved.service.load rules path typeName).report = none) ∧
      ∀ parent, path.parent? = some parent →
        (∃ above, (saved.service.load rules parent typeName).result = .ok above) ∧
          (saved.service.load rules path typeName).report.map Merge.Report.totals =
            (saved.service.load rules parent typeName).report.map Merge.Report.totals := by
  subst hs hfirst hsave
  obtain ⟨-, hover⟩ := Service.run_spec rules before (Service.start_over st capacity) hst
  have hst' := Store.after_keeps rules before hst
  have hsound : (st.after rules before).Sound :=
    Store.after_sound hst (Store.sound_of_empty hempty) hordered
  obtain ⟨-, -, hoverFirst⟩ := Service.load_spec rules path typeName hover
  obtain ⟨stale, hresolve, -⟩ := Service.load_ok hover hr
  obtain ⟨st', hsaved, hoverSaved⟩ := Service.saveWith_ok hoverFirst hst' hok
  obtain ⟨stale', hresolve', -⟩ := Service.load_ok hoverSaved hsecond
  have hstored : ∀ type, rules.schema.find? typeName = some type → ∀ q ∈ path.ancestry, ∀ n,
      (st.after rules before).stored? q = some n → Merge.Tame rules.schema type n := by
    intro type htype q hq n hn
    have hload := Store.stored?_eq_some.1 hn
    rw [← hover.store] at hload
    exact ⟨(hsound hn).ordered, hdistinct type htype q hq n hload⟩
  obtain ⟨hnode, r', rfl, halike⟩ :=
    Store.resolve_again hrules hst' hstored hresolve hsaved hresolve'
  refine ⟨⟨r', rfl, halike.sameContent (halike.isOrdered.trans hnode)⟩, ?_⟩
  -- Nothing happens between the save and the second load.
  have hnothing (s : Service) : s.after rules [] = s := rfl
  exact Service.load_after_save hoverFirst hst' rfl (hnothing _) hok (fun _ _ => rfl) hsecond

namespace Sample

open Schema (Record Property)

/-- Tags that only one side has are kept. -/
def tagged : Record :=
  { name := "App", properties := [(Property.set "tags" .simple "string").entriesBy .add .add] }

def tagRules : Rules := { schema := .insert .empty tagged, strategies := .standard }

def tags (texts : List String) : Node :=
  .complex { definedAt := global, typeName := "App" }
    [("tags", .set { definedAt := global, typeName := "string", propertyName := some "tags" }
      (some (texts.map string)))] ["tags"]

/-- The user's tags were saved against older ones. -/
def tagCalls : List Call :=
  [.save global "App" (tags ["a", "b"]), .save alice "App" (tags ["b", "c"]),
    .save global "App" (tags ["d", "b"])]

def loadedTags : Answer (Option Resolved) :=
  ((Service.start (.memory .empty) 2).after tagRules tagCalls).load tagRules alice "App"

def shownTags : Node :=
  match loadedTags.result with
  | .ok (some r) => r.node
  | _ => tags []

def savedTags : Answer Node := loadedTags.service.save tagRules alice "App" shownTags

/-- The user's snapshot holds the global tag too after it was saved back, and is not outdated. -/
theorem tags_saved_back :
    Steady tagRules.toRules ∧ (∀ call ∈ tagCalls, call.isOrdered = true) ∧
      loadedTags.report = some ⟨alice, ⟨1, 0⟩⟩ ∧
      (∃ r', (savedTags.service.load tagRules alice "App").result = .ok (some r') ∧
        r'.node.sameContent shownTags = true) ∧
      (savedTags.service.load tagRules alice "App").report.map Merge.Report.totals =
        (savedTags.service.load tagRules global "App").report.map Merge.Report.totals := by
  have hrules : Steady tagRules.toRules := ⟨rfl, by decide, by decide⟩
  have hordered : ∀ call ∈ tagCalls, call.isOrdered = true := by decide
  have hr : loadedTags.result = .ok (some ⟨shownTags, _, _⟩) := rfl
  have hok : savedTags.result = .ok _ := rfl
  obtain ⟨second, hsecond⟩ :
      ∃ second, (savedTags.service.load tagRules alice "App").result = .ok second := ⟨_, rfl⟩
  have hall : ∀ q ∈ alice.ancestry, (((Service.start (.memory .empty) 2).after tagRules
      tagCalls).store.load q).toOption.join.all (tagRules.schema.isDistinct tagged) = true := by
    decide
  have hdistinct : ∀ type, tagRules.schema.find? "App" = some type → ∀ q ∈ alice.ancestry, ∀ n,
      ((Service.start (.memory .empty) 2).after tagRules tagCalls).store.load q = .ok (some n) →
        tagRules.schema.isDistinct type n = true := by
    intro type htype q hq n hn
    cases htype
    have hdistinct := hall q hq
    simpa [hn, Except.toOption] using hdistinct
  obtain ⟨⟨r', rfl, hsame⟩, -, hreport⟩ :=
    save_loaded_back hrules (Store.keeps_memory _) (fun _ => rfl) rfl hordered hdistinct rfl hr rfl
      hok hsecond
  exact ⟨hrules, hordered, rfl, ⟨r', hsecond, hsame⟩, (hreport global rfl).2⟩

end Sample

end ScopedConfig
