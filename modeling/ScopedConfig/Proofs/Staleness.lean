import ScopedConfig.Proofs.History
import ScopedConfig.Proofs.Provenance

/-!
# Changed values are noticed

A snapshot records the scope and version of each node above it. When a load finds another value
above a property, it counts the pair as stale, unless the property above was removed and set again
in between: versions then start again at 1.
-/

namespace ScopedConfig

open Scope (Path)
open Merge (Totals Overridden Tidy isStale)
open Schema (Record Property)
open ScopedConfig.Except

theorem Node.text?_of_sameContent {a b : Node} (h : a.sameContent b = true) :
    a.text? = b.text? := by
  cases a with
  | simple info text =>
    obtain ⟨j, rfl⟩ := eq_of_sameContent_simple h
    rfl
  | complex info own declared =>
    obtain ⟨j, others, ds, rfl, -⟩ := eq_of_sameContent_complex h
    rfl
  | list info own | set info own | map info own =>
    cases b with
    | simple => cases own <;> simp [sameContent] at h
    | complex | list | set | map => rfl

theorem Merge.isStale_eq_false {a c : Node} :
    isStale a c = false ↔
      c.info.parentScope = some a.scopeName ∧ c.info.parentVersion = a.version := by
  simp [isStale]

namespace Store

variable {rules : Rules} {st : Store} {path : Path} {type : Record} {name : String} {p : Property}

/-! ## The node above -/

theorem mem_of_mapM {paths : List Path} {levels : List (Option Node)} {n : Node}
    (h : paths.mapM st.load = .ok levels) (hn : some n ∈ levels) :
    ∃ q ∈ paths, st.stored? q = some n := by
  induction paths generalizing levels with
  | nil =>
    cases h
    cases hn
  | cons path rest ih =>
    rw [List.mapM_cons] at h
    obtain ⟨held, hheld, h⟩ := bind_eq_ok.1 h
    obtain ⟨others, hothers, h⟩ := bind_eq_ok.1 h
    cases h
    rcases List.mem_cons.1 hn with rfl | hn
    · exact ⟨path, List.mem_cons_self, stored?_eq_some.2 hheld⟩
    · obtain ⟨q, hq, hstored⟩ := ih hothers hn
      exact ⟨q, List.mem_cons_of_mem _ hq, hstored⟩

theorem ancestor_property (hsound : st.Sound) (hfind : type.find? name = some p) (hp : Overridden p)
    {parent : Path} (hparent : path.parent? = some parent) {above : Node}
    (habove : st.ancestor rules type path = .ok (some above)) :
    Tidy above ∧ ∀ a, above.property? name = some a →
      a.definedAt ∈ parent.ancestry ∧ st.property? a.definedAt name = some a := by
  obtain ⟨levels, total, hlevels, hmerged⟩ := ancestor_ok hparent habove
  have htidy : ∀ n, some n ∈ levels → Tidy n := by
    intro n hn
    obtain ⟨q, -, hstored⟩ := mem_of_mapM hlevels hn
    exact Merge.tidy_of_ordered (hsound hstored).ordered
  obtain ⟨haboveTidy, horigin⟩ := Merge.levelsFrom_property hfind hp (by simp) htidy hmerged
  refine ⟨haboveTidy, fun a ha => ?_⟩
  obtain ⟨n, hn | hn, hna⟩ := horigin a ha
  · cases hn
  · obtain ⟨q, hq, hstored⟩ := mem_of_mapM hlevels hn
    obtain rfl : a.definedAt = q := (hsound hstored).place hna
    exact ⟨hq, by rw [property?, hstored]; exact hna⟩

/-! ## The load -/

theorem resolve_counts (hsound : st.Sound) (hfind : type.find? name = some p) (hp : Overridden p)
    {typeName : String} (htype : rules.rootType path typeName = .ok type) {above stored a c : Node}
    (habove : st.ancestor rules type path = .ok (some above)) (ha : above.property? name = some a)
    (hstored : st.stored? path = some stored) (hc : stored.property? name = some c)
    (hpair : isStale a c = true) {resolved : Option Resolved} {stale : Totals}
    (h : st.resolve rules path typeName = .ok (resolved, stale)) : stale.any = true := by
  cases hparent : path.parent? with
  | none => simp [ancestor, hparent] at habove
  | some parent =>
    obtain ⟨htidy, -⟩ := ancestor_property hsound hfind hp hparent habove
    obtain ⟨levels, first, merged, last, -, -, hlast, rfl⟩ :=
      resolve_above hparent htype habove (stored?_eq_some.1 hstored) h
    obtain ⟨⟨node, total⟩, hnode, hlast⟩ := bind_eq_ok.1 hlast
    cases hlast
    obtain ⟨-, -, hcount⟩ := Merge.complex_property hfind hp htidy
      (Merge.tidy_of_ordered (hsound hstored).ordered) hnode
    simp [Totals.any_add, hcount a c ha hc hpair]

/-! ## The record of a save -/

theorem parent_of_forSave {s : Schema} {previous : Option Node} {node above a c : Node}
    (ha : above.property? name = some a)
    (hc : (Stamp.forSave s type previous node (some above) path).property? name = some c) :
    c.info.parentScope = some a.scopeName ∧ c.info.parentVersion = a.version := by
  rw [Stamp.forSave, Stamp.property?_stamp] at hc
  obtain ⟨child, -, rfl⟩ := Option.map_eq_some_iff.1 hc
  rw [Stamp.info_stamp, Option.bind_some, ha]
  exact ⟨rfl, rfl⟩

/-- What a save stored is fresh below another node only if that node has the same text, as long as
the property stays set where both were defined. -/
theorem text?_of_fresh {saved : Store} {between : List Call} {typeName : String}
    {node stamped above above' a b c : Node} {loaded : Option Int} (hst : st.Keeps)
    (hsound : st.Sound) (hsound' : (saved.after rules between).Sound)
    (hfind : type.find? name = some p) (hp : Overridden p)
    (htype : rules.rootType path typeName = .ok type)
    (hsave : st.saveWith rules path typeName node loaded = .ok (stamped, saved))
    (habove : st.ancestor rules type path = .ok (some above)) (ha : above.property? name = some a)
    (habove' : (saved.after rules between).ancestor rules type path = .ok (some above'))
    (hb : above'.property? name = some b) (hc : stamped.property? name = some c)
    (hheld : a.definedAt = b.definedAt →
      ∀ m ∈ saved.moments rules between, (m.property? a.definedAt name).isSome = true)
    (hfresh : isStale b c = false) : a.text? = b.text? := by
  cases hparent : path.parent? with
  | none => simp [ancestor, hparent] at habove
  | some parent =>
    obtain ⟨-, hothers⟩ := load_saved hst hsave
    obtain ⟨haPlace, haStored⟩ := (ancestor_property hsound hfind hp hparent habove).2 a ha
    obtain ⟨hbPlace, hbStored⟩ := (ancestor_property hsound' hfind hp hparent habove').2 b hb
    -- The save recorded the scope and the version of `a`, and `b` has the same.
    obtain ⟨type', previous, found, htype', -, hfound, rfl, -⟩ := saveWith_ok hsave
    obtain rfl : type = type' := Except.ok.inj (htype.symm.trans htype')
    obtain rfl : some above = found := Except.ok.inj (habove.symm.trans hfound)
    obtain ⟨hscope, hversion⟩ := parent_of_forSave ha hc
    obtain ⟨hscope', hversion'⟩ := Merge.isStale_eq_false.1 hfresh
    have hplace : a.definedAt = b.definedAt := by
      apply Path.eq_of_last_name haPlace hbPlace
      exact Option.some.inj (hscope.symm.trans hscope')
    have hstart : saved.property? a.definedAt name = some a := by
      rw [property?, stored?, hothers _ (Path.ne_of_mem_parent hparent haPlace)]
      exact haStored
    rw [← hplace] at hbStored
    have hkeeps : saved.Keeps := saveWith_keeps hst hsave
    have hnewer : b.Supersedes a :=
      after_supersedes (fun st => st.property? a.definedAt name) step_property_supersedes hkeeps
        (hheld hplace) hstart hbStored
    rcases hnewer.content (hversion.symm.trans hversion') with rfl | hcontent
    · rfl
    · exact Node.text?_of_sameContent hcontent

end Store

/-! ## Services -/

/-- A snapshot was saved below a text `a`, and is still stored when it is loaded below another text
`b`. The load counts the property as stale. If `a` and `b` come from one scope, the property must
have been set there all the time in between. -/
theorem changed_parent_is_counted {rules : Rules} {st : Store} {capacity : Nat}
    {before between : List Call} {path : Path} {typeName name : String} {type : Record}
    {p : Property} {node stamped above above' a b : Node} {loaded : Option Int}
    {resolved : Option Resolved} {saver later : Service} {saved : Answer Node} (hst : st.Keeps)
    (hempty : ∀ q, st.load q = .ok none)
    (hsaver : (Service.start st capacity).after rules before = saver)
    (hsaved : saver.saveWith rules path typeName node loaded = saved)
    (hlater : saved.service.after rules between = later)
    (hordered : ∀ call ∈ before ++ between, call.isOrdered = true) (hnode : node.isOrdered = true)
    (htype : rules.schema.find? typeName = some type) (hfind : type.find? name = some p)
    (hp : Overridden p) (hsave : saved.result = .ok stamped)
    (hload : (later.load rules path typeName).result = .ok resolved)
    (hstored : later.store.stored? path = some stamped)
    (hproperty : (stamped.property? name).isSome = true)
    (habove : (saver.ancestor rules type path).1 = .ok (some above))
    (ha : above.property? name = some a)
    (habove' : (later.ancestor rules type path).1 = .ok (some above'))
    (hb : above'.property? name = some b) (hchanged : a.text? ≠ b.text?)
    (hheld : a.definedAt = b.definedAt →
      ∀ m ∈ saved.service.moments rules between,
        (m.store.property? a.definedAt name).isSome = true) :
    ∃ r, (later.load rules path typeName).report = some r ∧
      1 ≤ r.totals.merged + r.totals.discarded := by
  subst hsaver hsaved hlater
  -- The run in three parts: what came before the save, the save, and what came before the load.
  obtain ⟨-, hover⟩ := Service.run_spec rules before (Service.start_over st capacity) hst
  have hst₁ := Store.after_keeps rules before hst
  have hsound₁ : (st.after rules before).Sound :=
    Store.after_sound hst (Store.sound_of_empty hempty) fun call hcall =>
      hordered call (List.mem_append_left _ hcall)
  obtain ⟨st₂, hsaved, hover₂⟩ := Service.saveWith_ok hover hst₁ hsave
  have hst₂ := Store.saveWith_keeps hst₁ hsaved
  have hsound₂ : st₂.Sound := by
    obtain ⟨call, hcall, rfl⟩ := Store.saveWith_step hsaved
    exact Store.step_sound hst₁ hsound₁ (by rw [Call.isOrdered, hcall]; exact hnode)
  obtain ⟨-, hover₃⟩ := Service.run_spec rules between hover₂ hst₂
  have hsound₃ : (st₂.after rules between).Sound :=
    Store.after_sound hst₂ hsound₂ fun call hcall => hordered call (List.mem_append_right _ hcall)
  obtain ⟨stale, hresolve, hreport⟩ := Service.load_ok hover₃ hload
  have hroot : rules.rootType path typeName = .ok type := by
    obtain ⟨type', _, _, htype', -⟩ := Store.resolve_ok.1 hresolve
    obtain ⟨-, -, hrequire⟩ := Rules.rootType_ok.1 htype'
    obtain rfl : type' = type := Option.some.inj ((Merge.require_ok hrequire).symm.trans htype)
    exact htype'
  rw [(Service.ancestor_spec rules type path hover).1] at habove
  rw [(Service.ancestor_spec rules type path hover₃).1] at habove'
  rw [hover₃.store] at hstored
  obtain ⟨c, hc⟩ := Option.isSome_iff_exists.1 hproperty
  -- A pair that is not stale had one text from the save to the load.
  have hpair : isStale b c = true := by
    rw [← Bool.not_eq_false]
    intro hfresh
    apply hchanged
    exact Store.text?_of_fresh hst₁ hsound₁ hsound₃ hfind hp hroot hsaved habove ha habove' hb hc
      (fun hplace => Service.forall_moments hover₂ hst₂ (hheld hplace)) hfresh
  have hany := Store.resolve_counts hsound₃ hfind hp hroot habove' hb hstored hc hpair hresolve
  exact ⟨⟨path, stale⟩, by rw [hreport, Merge.report?, if_pos hany], Totals.any_iff.1 hany⟩

namespace Sample

/-- The new global number is noticed when the snapshot of the user is loaded. -/
theorem changed_global_is_counted :
    ∃ r, (outdated.load rules alice "App").report = some r ∧
      1 ≤ r.totals.merged + r.totals.discarded := by
  have hlater :
      ((served [save global "80"]).saveWith rules alice "App" (app "8080") none).service.after rules
        [save global "81"] = outdated := rfl
  have hfind : record.find? "port" = some (.simple "port" "int") := rfl
  have hsave :
      ((served [save global "80"]).saveWith rules alice "App" (app "8080") none).result = .ok _ :=
    rfl
  have hload : (outdated.load rules alice "App").result = .ok _ := rfl
  exact changed_parent_is_counted (Store.keeps_memory .empty) (fun _ => rfl) rfl rfl hlater
    (by decide) (by decide) rfl hfind ⟨rfl, rfl⟩ hsave hload rfl rfl rfl rfl rfl rfl (by decide)
    fun _ => by decide

/-- When the global snapshot is removed and stored again, it has the version that the user was saved
against, and the new number is not noticed. -/
theorem recreated_global_is_not_counted :
    ¬ ∀ (rules : Rules) (st : Store) (capacity : Nat) (before between : List Call) (path : Path)
        (typeName name : String) (type : Record) (p : Property)
        (node stamped above above' a b : Node) (loaded : Option Int) (resolved : Option Resolved)
        (saver later : Service) (saved : Answer Node),
      st.Keeps → (∀ q, st.load q = .ok none) →
      (Service.start st capacity).after rules before = saver →
      saver.saveWith rules path typeName node loaded = saved →
      saved.service.after rules between = later →
      (∀ call ∈ before ++ between, call.isOrdered = true) → node.isOrdered = true →
      rules.schema.find? typeName = some type → type.find? name = some p → Overridden p →
      saved.result = .ok stamped → (later.load rules path typeName).result = .ok resolved →
      later.store.stored? path = some stamped → (stamped.property? name).isSome = true →
      (saver.ancestor rules type path).1 = .ok (some above) → above.property? name = some a →
      (later.ancestor rules type path).1 = .ok (some above') → above'.property? name = some b →
      a.text? ≠ b.text? →
      ∃ r, (later.load rules path typeName).report = some r ∧
        1 ≤ r.totals.merged + r.totals.discarded := by
  intro h
  have hfind : record.find? "port" = some (.simple "port" "int") := rfl
  obtain ⟨r, hr, -⟩ := h rules (.memory .empty) 2 [save global "80"]
    [.delete global false, save global "81"] alice "App" "port" record (.simple "port" "int")
    (app "8080") _ _ _ _ _ none _ _ _ _ (Store.keeps_memory _) (fun _ => rfl) rfl rfl rfl
    (by decide) (by decide) rfl hfind ⟨rfl, rfl⟩ rfl rfl rfl rfl rfl rfl rfl rfl (by decide)
  cases hr

end Sample

end ScopedConfig
