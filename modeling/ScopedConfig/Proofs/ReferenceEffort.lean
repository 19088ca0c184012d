import ScopedConfig.Proofs.ReferenceWalk

/-!
# The effort of the check for cycles

The walk along references as a relation that keeps no account of depth: a walk that is related to a
result ends. It is shown that every check is such a walk, that it looks at the properties of a place
at most once, and that there are few places.
-/

namespace ScopedConfig.Reference

open Schema (Record Property)
open ScopedConfig.Except

/-! ## Walks with a log -/

/-- A visit of a type at a path, with the root and the places that the references in progress lead
to. -/
structure Visit where
  chain : List Place
  record : Record
  path : Scope.Path

def Visit.place (v : Visit) : Place := (v.record.name, v.path)

/-- What happens on a visit: the place is finished or open, or its properties are looked at. -/
inductive Event where
  | met (v : Visit)
  | expanded (v : Visit)

def Event.visit : Event → Visit
  | met v | expanded v => v

/-- The places whose properties are looked at, in order. -/
def expansions (log : List Event) : List Place :=
  log.filterMap fun
    | .expanded v => some v.place
    | .met _ => none

/-- Where a property leads to, if it leads anywhere. -/
def next (s : Schema) (chain : List Place) (path : Scope.Path) (p : Property) :
    Except Error (Option Visit) :=
  match p.reference with
  | some reference => do
    let target ← s.require reference.target
    let path ← resolve s reference
    if path ∈ chain.map Prod.snd then throw (.cycle (chain ++ [(target.name, path)]))
    return some ⟨chain ++ [(target.name, path)], target, path⟩
  | none =>
    if p.hasComplexItems && !p.polymorphic then do
      let embedded ← s.require p.typeName
      return some ⟨chain, embedded, path⟩
    else return none

/-- What is to be done while the places are open. -/
inductive Job where
  | visit (v : Visit) (opened : List Place)
  | properties (rest : List Property) (chain : List Place) (path : Scope.Path)
    (opened : List Place)

def Job.opened : Job → List Place
  | .visit _ opened | .properties _ _ _ opened => opened

/-- The job ends with this log and result. -/
inductive Ends (s : Schema) : Job → Finished → List Event → Except Error Finished → Prop where
  | met {v : Visit} {opened : List Place} {done : Finished}
    (h : v.place ∈ done ∨ v.place ∈ opened) :
    Ends s (.visit v opened) done [.met v] (.ok done)
  | expanded {v : Visit} {opened : List Place} {done : Finished} {log : List Event}
    {result : Except Error Finished} (hdone : v.place ∉ done) (hopen : v.place ∉ opened)
    (inner : Ends s (.properties v.record.properties v.chain v.path (v.place :: opened)) done log
      result) :
    Ends s (.visit v opened) done (.expanded v :: log) (result.map (v.place :: ·))
  | nil {chain opened : List Place} {path : Scope.Path} {done : Finished} :
    Ends s (.properties [] chain path opened) done [] (.ok done)
  | stops {p : Property} {rest : List Property} {chain opened : List Place} {path : Scope.Path}
    {done : Finished} {e : Error} (h : next s chain path p = .error e) :
    Ends s (.properties (p :: rest) chain path opened) done [] (.error e)
  | passes {p : Property} {rest : List Property} {chain opened : List Place} {path : Scope.Path}
    {done : Finished} {log : List Event} {result : Except Error Finished}
    (h : next s chain path p = .ok none)
    (others : Ends s (.properties rest chain path opened) done log result) :
    Ends s (.properties (p :: rest) chain path opened) done log result
  | fails {p : Property} {rest : List Property} {chain opened : List Place} {path : Scope.Path}
    {done : Finished} {v : Visit} {log : List Event} {e : Error}
    (h : next s chain path p = .ok (some v))
    (visit : Ends s (.visit v opened) done log (.error e)) :
    Ends s (.properties (p :: rest) chain path opened) done log (.error e)
  | enters {p : Property} {rest : List Property} {chain opened : List Place} {path : Scope.Path}
    {done mid : Finished} {v : Visit} {log more : List Event} {result : Except Error Finished}
    (h : next s chain path p = .ok (some v))
    (visit : Ends s (.visit v opened) done log (.ok mid))
    (others : Ends s (.properties rest chain path opened) mid more result) :
    Ends s (.properties (p :: rest) chain path opened) done (log ++ more) result

/-- The check of a type at a path ends with this log and result. -/
inductive CheckEnds (s : Schema) (typeName : String) (path : Scope.Path) :
    List Event → Except Error Unit → Prop where
  | unknown {e : Error} (h : s.require typeName = .error e) : CheckEnds s typeName path [] (.error e)
  | walk {r : Record} {log : List Event} {result : Except Error Finished}
    (h : s.require typeName = .ok r)
    (visit : Ends s (.visit ⟨[(r.name, path)], r, path⟩ []) [] log result) :
    CheckEnds s typeName path log (result.map fun _ => ())

variable {s : Schema} {chain opened all : List Place} {fuel : Nat} {r : Record}
  {path root : Scope.Path} {done : Finished} {p : Property} {v : Visit} {job : Job}
  {log : List Event} {result : Except Error Finished}

/-! ## The walk ends -/

theorem follow_eq : follow s chain fuel opened path done p =
    (next s chain path p >>= fun
      | none => .ok done
      | some v => visit s v.chain fuel opened v.record v.path done) := by
  cases href : p.reference with
  | some reference =>
    simp only [follow, next, href, any_path]
    cases s.require reference.target with
    | error e => rfl
    | ok target =>
      cases resolve s reference with
      | error e => rfl
      | ok path' =>
        simp only [bind, Except.bind]
        split <;> rfl
  | none =>
    simp only [follow, next, href]
    split
    · cases s.require p.typeName <;> rfl
    · rfl

/-- A walk has one log and one result. -/
theorem Ends.unique {log' : List Event} {result' : Except Error Finished}
    (h : Ends s job done log result) (h' : Ends s job done log' result') :
    log = log' ∧ result = result' := by
  -- What comes next is a function of the job, so the second walk cannot part from the first.
  induction h generalizing log' result' with
  | met hmet =>
    cases h' with
    | met => exact ⟨rfl, rfl⟩
    | expanded hdone hopen => exact absurd hmet (not_or.2 ⟨hdone, hopen⟩)
  | expanded hdone hopen _ ih =>
    cases h' with
    | met hmet => exact absurd hmet (not_or.2 ⟨hdone, hopen⟩)
    | expanded _ _ inner =>
      obtain ⟨rfl, rfl⟩ := ih inner
      exact ⟨rfl, rfl⟩
  | nil =>
    cases h'
    exact ⟨rfl, rfl⟩
  | stops hnext =>
    cases h' with
    | stops hnext' =>
      obtain rfl := Except.error.inj (hnext.symm.trans hnext')
      exact ⟨rfl, rfl⟩
    | passes hnext' | fails hnext' | enters hnext' => cases hnext.symm.trans hnext'
  | passes hnext _ ih =>
    cases h' with
    | passes _ others => exact ih others
    | stops hnext' | fails hnext' | enters hnext' => cases hnext.symm.trans hnext'
  | fails hnext _ ih =>
    cases h' with
    | stops hnext' | passes hnext' => cases hnext.symm.trans hnext'
    | fails hnext' visit =>
      obtain rfl := Option.some.inj (Except.ok.inj (hnext.symm.trans hnext'))
      exact ih visit
    | enters hnext' visit =>
      obtain rfl := Option.some.inj (Except.ok.inj (hnext.symm.trans hnext'))
      cases (ih visit).2
  | enters hnext _ _ ih ihothers =>
    cases h' with
    | stops hnext' | passes hnext' => cases hnext.symm.trans hnext'
    | fails hnext' visit =>
      obtain rfl := Option.some.inj (Except.ok.inj (hnext.symm.trans hnext'))
      cases (ih visit).2
    | enters hnext' visit others =>
      obtain rfl := Option.some.inj (Except.ok.inj (hnext.symm.trans hnext'))
      obtain ⟨rfl, hmid⟩ := ih visit
      obtain rfl := Except.ok.inj hmid
      obtain ⟨rfl, rfl⟩ := ihothers others
      exact ⟨rfl, rfl⟩

/-! ## Where the walk can go -/

/-- Each type at the root path and at the path of each reference, by the names that the types
have. -/
def expandable (s : Schema) (root : Scope.Path) : List Place :=
  s.records.map Record.name ×ˢ (root :: (targets s).map Prod.snd)

theorem length_expandable (root : Scope.Path) :
    (expandable s root).length ≤ s.types.length * (1 + declaredCount s) := by
  have htargets : (targets s).length ≤ declaredCount s := List.length_filterMap_le _ _
  rw [expandable, List.length_product, List.length_map, List.length_cons, List.length_map,
    Schema.records, List.length_map, Nat.add_comm _ 1]
  exact Nat.mul_le_mul_left _ (Nat.add_le_add_left htargets 1)

/-- A known type at a path of the chain, which has no path twice. -/
structure Visit.Fits (s : Schema) (root : Scope.Path) (v : Visit) : Prop where
  known : v.record ∈ s.records
  path : v.path ∈ root :: (targets s).map Prod.snd
  passed : v.path ∈ v.chain.map Prod.snd
  nodup : (v.chain.map Prod.snd).Nodup

theorem Visit.Fits.mem_expandable (h : v.Fits s root) : v.place ∈ expandable s root :=
  List.mem_product.2 ⟨List.mem_map_of_mem h.known, h.path⟩

theorem next_eq_some (h : next s chain path p = .ok (some v)) :
    v.record ∈ s.records ∧
      ((∃ reference, p.reference = some reference ∧ resolve s reference = .ok v.path ∧
          v.path ∉ chain.map Prod.snd ∧ v.chain = chain ++ [v.place]) ∨
        v.path = path ∧ v.chain = chain) := by
  cases href : p.reference with
  | some reference =>
    simp only [next, href] at h
    obtain ⟨target, htarget, h⟩ := bind_eq_ok.1 h
    obtain ⟨path', hpath, h⟩ := bind_eq_ok.1 h
    split at h
    case isTrue => cases h
    case isFalse hnew =>
      obtain rfl := Option.some.inj (Except.ok.inj h)
      exact ⟨Schema.mem_records (Merge.require_ok htarget), .inl ⟨reference, rfl, hpath, hnew, rfl⟩⟩
  | none =>
    simp only [next, href] at h
    split at h
    · obtain ⟨embedded, hembedded, h⟩ := bind_eq_ok.1 h
      obtain rfl := Option.some.inj (Except.ok.inj h)
      exact ⟨Schema.mem_records (Merge.require_ok hembedded), .inr ⟨rfl, rfl⟩⟩
    · cases h

theorem Visit.Fits.next {w : Visit} (h : v.Fits s root) (hp : p ∈ v.record.properties)
    (hnext : Reference.next s v.chain v.path p = .ok (some w)) : w.Fits s root := by
  obtain ⟨hknown, ⟨reference, href, hpath, hnew, hchain⟩ | ⟨hpath, hchain⟩⟩ := next_eq_some hnext
  · refine ⟨hknown, List.mem_cons_of_mem _ ?_, ?_, ?_⟩
    · exact List.mem_map_of_mem (mem_targets h.known hp href hpath)
    · simp [hchain, Visit.place]
    · rw [hchain, List.map_append]
      refine List.nodup_append.2 ⟨h.nodup, by simp, fun a ha b hb => ?_⟩
      rw [List.mem_singleton.1 hb]
      exact ne_of_mem_of_not_mem ha hnew
  · exact ⟨hknown, hpath ▸ h.path, hpath ▸ hchain ▸ h.passed, hchain ▸ h.nodup⟩

theorem Room.next (h : Room all chain opened fuel) (hnext : next s chain path p = .ok (some v)) :
    Room all v.chain opened fuel := by
  obtain ⟨-, ⟨_, -, -, -, hchain⟩ | ⟨-, hchain⟩⟩ := next_eq_some hnext
  · exact hchain ▸ h.extend _
  · exact hchain ▸ h

theorem properties_end {rest : List Property}
    (hvisit : ∀ {w : Visit} {p : Property} (done : Finished), p ∈ rest →
      next s v.chain v.path p = .ok (some w) →
      ∃ log, Ends s (.visit w opened) done log
        (visit s w.chain fuel opened w.record w.path done))
    (done : Finished) :
    ∃ log, Ends s (.properties rest v.chain v.path opened) done log
      (rest.foldlM (follow s v.chain fuel opened v.path) done) := by
  induction rest generalizing done with
  | nil => exact ⟨[], .nil⟩
  | cons p rest ih =>
    have hothers := ih fun done hq => hvisit done (List.mem_cons_of_mem _ hq)
    rw [List.foldlM_cons, follow_eq]
    cases hnext : next s v.chain v.path p with
    | error e => exact ⟨[], .stops hnext⟩
    | ok target =>
      cases target with
      | none =>
        obtain ⟨log, hlog⟩ := hothers done
        exact ⟨log, .passes hnext hlog⟩
      | some w =>
        obtain ⟨log, hlog⟩ := hvisit done List.mem_cons_self hnext
        simp only [bind, Except.bind]
        cases hresult : visit s w.chain fuel opened w.record w.path done with
        | error e => exact ⟨log, .fails hnext (hresult ▸ hlog)⟩
        | ok mid =>
          obtain ⟨more, hmore⟩ := hothers mid
          exact ⟨log ++ more, .enters hnext (hresult ▸ hlog) hmore⟩

/-- Given room for the places that are not open yet, the walk with its account of depth is one that
ends without. -/
theorem visit_ends {v : Visit} (hfits : v.Fits s root)
    (hroom : Room (expandable s root) v.chain opened fuel) (done : Finished) :
    ∃ log, Ends s (.visit v opened) done log
      (visit s v.chain fuel opened v.record v.path done) := by
  induction fuel generalizing v opened done with
  | zero => exact absurd rfl hroom.fuel_pos
  | succ fuel ih =>
    rw [visit_succ]
    split
    case isTrue hentered =>
      simp only [Bool.or_eq_true, List.contains_iff_mem] at hentered
      exact ⟨_, .met hentered⟩
    case isFalse hnew =>
      simp only [Bool.or_eq_true, List.contains_iff_mem, not_or] at hnew
      have henter := hroom.enter hfits.mem_expandable hnew.2 hfits.passed
      obtain ⟨log, hlog⟩ :
          ∃ log, Ends s (.properties v.record.properties v.chain v.path (v.place :: opened)) done
            log _ :=
        properties_end (fun done hp hnext => ih (hfits.next hp hnext) (henter.next hnext) done) done
      exact ⟨_, .expanded hnew.1 hnew.2 hlog⟩

/-! ## What the log of a walk shows -/

/-- Every visit that the job makes fits. -/
def Job.Fits (s : Schema) (root : Scope.Path) : Job → Prop
  | .visit v _ => v.Fits s root
  | .properties rest chain path _ =>
    ∃ r : Record, rest ⊆ r.properties ∧ (Visit.mk chain r path).Fits s root

theorem Ends.fits (h : Ends s job done log result) (hjob : job.Fits s root) :
    ∀ e ∈ log, e.visit.Fits s root := by
  induction h with
  | met => exact List.forall_mem_singleton.2 hjob
  | expanded _ _ _ ih =>
    exact List.forall_mem_cons.2 ⟨hjob, ih ⟨_, List.Subset.refl _, hjob⟩⟩
  | nil | stops => simp
  | passes _ _ ih =>
    obtain ⟨r, hrest, hfits⟩ := hjob
    exact ih ⟨r, (List.cons_subset.1 hrest).2, hfits⟩
  | fails hnext _ ih =>
    obtain ⟨r, hrest, hfits⟩ := hjob
    exact ih (hfits.next (List.cons_subset.1 hrest).1 hnext)
  | enters hnext _ _ ih ihothers =>
    obtain ⟨r, hrest, hfits⟩ := hjob
    exact List.forall_mem_append.2 ⟨ih (hfits.next (List.cons_subset.1 hrest).1 hnext),
      ihothers ⟨r, (List.cons_subset.1 hrest).2, hfits⟩⟩

/-- No place is expanded twice, or again, and the places that are expanded are finished in the
end. -/
structure ExpandsOnce (opened : List Place) (done : Finished) (log : List Event)
    (result : Except Error Finished) : Prop where
  nodup : (expansions log).Nodup
  fresh : ∀ a ∈ expansions log, a ∉ done ∧ a ∉ opened
  finished : ∀ done', result = .ok done' → ∀ a, a ∈ done' ↔ a ∈ done ∨ a ∈ expansions log

@[simp] theorem expansions_expanded :
    expansions (.expanded v :: log) = v.place :: expansions log := rfl

@[simp] theorem expansions_append (log more : List Event) :
    expansions (log ++ more) = expansions log ++ expansions more := List.filterMap_append

theorem ExpandsOnce.of_nil (hlog : expansions log = [])
    (hresult : ∀ done', result = .ok done' → done' = done) : ExpandsOnce opened done log result where
  nodup := hlog ▸ List.nodup_nil
  fresh := by simp [hlog]
  finished done' h a := by simp [hlog, hresult done' h]

theorem Ends.expandsOnce (h : Ends s job done log result) :
    ExpandsOnce job.opened done log result := by
  induction h with
  | met => exact .of_nil rfl fun done' h => (Except.ok.inj h).symm
  | nil => exact .of_nil rfl fun done' h => (Except.ok.inj h).symm
  | stops => exact .of_nil rfl fun done' h => by cases h
  | passes _ _ ih => exact ih
  | fails _ _ ih => exact ⟨ih.nodup, ih.fresh, fun done' h => by cases h⟩
  | @expanded v opened done log result hdone hopen _ ih =>
    -- While the properties are looked at, the place itself is open.
    have hnew : v.place ∉ expansions log := fun hmem =>
      (ih.fresh _ hmem).2 List.mem_cons_self
    refine ⟨List.nodup_cons.2 ⟨hnew, ih.nodup⟩, ?_, fun done' h a => ?_⟩
    · exact List.forall_mem_cons.2 ⟨⟨hdone, hopen⟩, fun a ha =>
        ⟨(ih.fresh a ha).1, fun hmem => (ih.fresh a ha).2 (List.mem_cons_of_mem _ hmem)⟩⟩
    · obtain ⟨mid, hmid, rfl⟩ := map_eq_ok.1 h
      rw [expansions_expanded, List.mem_cons, List.mem_cons, ih.finished mid hmid]
      tauto
  | @enters p rest chain opened path done mid v log more result _ _ _ ih ihothers =>
    have hmid := ih.finished mid rfl
    have hfresh : ∀ a ∈ expansions more, a ∉ done ∧ a ∉ expansions log := fun a ha =>
      not_or.1 fun h => (ihothers.fresh a ha).1 ((hmid a).2 h)
    refine ⟨?_, ?_, fun done' h a => ?_⟩
    · rw [expansions_append]
      exact List.nodup_append.2 ⟨ih.nodup, ihothers.nodup, fun a ha b hb heq =>
        (hfresh b hb).2 (heq ▸ ha)⟩
    · rw [expansions_append]
      exact List.forall_mem_append.2 ⟨ih.fresh, fun a ha =>
        ⟨(hfresh a ha).1, (ihothers.fresh a ha).2⟩⟩
    · rw [ihothers.finished done' h, hmid, expansions_append, List.mem_append, or_assoc]

/-! ## The check -/

theorem CheckEnds.unique {typeName : String} {log' : List Event} {result result' : Except Error Unit}
    (h : CheckEnds s typeName path log result) (h' : CheckEnds s typeName path log' result') :
    log = log' ∧ result = result' := by
  cases h with
  | unknown hunknown =>
    cases h' with
    | unknown hunknown' =>
      obtain rfl := Except.error.inj (hunknown.symm.trans hunknown')
      exact ⟨rfl, rfl⟩
    | walk hknown => cases hunknown.symm.trans hknown
  | walk hknown visit =>
    cases h' with
    | unknown hunknown => cases hknown.symm.trans hunknown
    | walk hknown' visit' =>
      obtain rfl := Except.ok.inj (hknown.symm.trans hknown')
      obtain ⟨rfl, rfl⟩ := visit.unique visit'
      exact ⟨rfl, rfl⟩

theorem Visit.Fits.start (hr : r ∈ s.records) : (Visit.mk [(r.name, path)] r path).Fits s path where
  known := hr
  path := List.mem_cons_self
  passed := by simp
  nodup := by simp

theorem check_walks (s : Schema) (typeName : String) (path : Scope.Path) :
    ∃ log, CheckEnds s typeName path log (check s typeName path) := by
  cases hr : s.require typeName with
  | error e =>
    rw [check, hr]
    exact ⟨[], .unknown hr⟩
  | ok r =>
    have hroom : Room (expandable s path) [(r.name, path)] [] (depthBound s) :=
      ⟨by simp, by simp, List.nodup_nil, by
        have := length_expandable (s := s) path
        rw [List.length_nil, depthBound]
        omega⟩
    obtain ⟨log, hlog⟩ := visit_ends
      (Visit.Fits.start (Schema.mem_records (Merge.require_ok hr))) hroom []
    rw [check, hr]
    exact ⟨log, .walk hr hlog⟩

theorem CheckEnds.fits {typeName : String} {result : Except Error Unit}
    (h : CheckEnds s typeName path log result) : ∀ e ∈ log, e.visit.Fits s path := by
  cases h with
  | unknown => simp
  | walk hknown visit =>
    exact visit.fits (Visit.Fits.start (Schema.mem_records (Merge.require_ok hknown)))

theorem CheckEnds.nodup {typeName : String} {result : Except Error Unit}
    (h : CheckEnds s typeName path log result) : (expansions log).Nodup := by
  cases h with
  | unknown => exact List.nodup_nil
  | walk _ visit => exact visit.expandsOnce.nodup

/-- The check of any type at any path of any schema is a walk that ends in one way. It looks at the
properties of no place twice, and of no more places than there are types at the root path and at the
paths of references; the references in progress never lead to one path twice. -/
theorem check_ends (s : Schema) (typeName : String) (path : Scope.Path) :
    ∃ log, CheckEnds s typeName path log (check s typeName path) ∧
      (∀ log' result, CheckEnds s typeName path log' result →
        log' = log ∧ result = check s typeName path) ∧
      (expansions log).Nodup ∧
      (expansions log).length ≤ s.types.length * (1 + declaredCount s) ∧
      ∀ e ∈ log, (e.visit.chain.map Prod.snd).Nodup := by
  obtain ⟨log, hlog⟩ := check_walks s typeName path
  have hsubset : expansions log ⊆ expandable s path := by
    intro a ha
    obtain ⟨e, he, hplace⟩ := List.mem_filterMap.1 ha
    cases e with
    | met => cases hplace
    | expanded v => exact Option.some.inj hplace ▸ (hlog.fits _ he).mem_expandable
  refine ⟨log, hlog, fun log' result h => h.unique hlog, hlog.nodup, ?_, fun e he =>
    (hlog.fits e he).nodup⟩
  exact Nat.le_trans (List.subperm_of_subset hlog.nodup hsubset).length_le (length_expandable path)

end ScopedConfig.Reference
