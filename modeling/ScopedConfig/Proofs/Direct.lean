import ScopedConfig.Proofs.Cache
import ScopedConfig.Proofs.Run
import ScopedConfig.Proofs.Stamp

/-!
# The service without its cache

Each call as a function of the store alone. A service whose cache mirrors its store answers like
that and changes the store like that.
-/

namespace ScopedConfig

open Scope (Path)

/-! ## Calls on a store -/

namespace Store

def resolve (rules : Rules) (st : Store) (path : Path) (typeName : String) :
    Except Error (Option Resolved × Merge.Totals) := do
  let type ← rules.rootType path typeName
  let levels ← path.ancestry.mapM st.load
  Service.resolve rules type path levels

def ancestor (rules : Rules) (st : Store) (type : Schema.Record) (path : Path) :
    Except Error (Option Node) :=
  match path.parent? with
  | none => .ok none
  | some parent => do
    let levels ← parent.ancestry.mapM st.load
    (Merge.levels rules.toRules type levels).map Prod.fst

def commit (st : Store) (stamped : Node) (previous : Option Node) (loaded : Option Int) :
    Except Error (Node × Store) :=
  if loaded.isNone && previous == some stamped then .ok (stamped, st)
  else (Service.write st stamped previous loaded).map fun st' => (stamped, st')

/-- Saving: the node is stamped and committed. -/
def saveWith (rules : Rules) (st : Store) (path : Path) (typeName : String) (node : Node)
    (loaded : Option Int) : Except Error (Node × Store) := do
  let type ← rules.rootType path typeName
  if node.kind ≠ .complex then throw (.corrupt path.text (.rootNotComplex node.kind))
  let previous ← st.load path
  let above ← st.ancestor rules type path
  st.commit (Stamp.forSave rules.schema type previous node above path) previous loaded

/-- The store after an operation. One that fails leaves it as it was. -/
def afterwards {α : Type} (st : Store) : Except Error (α × Store) → Store
  | .ok (_, st') => st'
  | .error _ => st

def effect {α : Type} (st : Store) (value : α → Value) (outcome : Except Error (α × Store)) :
    Option Reply × Store :=
  (some ⟨outcome.map fun r => value r.1, none⟩, st.afterwards outcome)

def step (rules : Rules) (st : Store) : Call → Option Reply × Store
  | .load path typeName =>
    match st.resolve rules path typeName with
    | .error e => (some ⟨.error e, none⟩, st)
    | .ok (resolved, stale) => (some ⟨.ok (.resolved resolved), Merge.report? path stale⟩, st)
  | .save path typeName node => st.effect .node (st.saveWith rules path typeName node none)
  | .saveChecked path typeName node loaded =>
    st.effect .node (st.saveWith rules path typeName node (some loaded))
  | .delete path below => st.effect .count (st.delete path below)
  | .deleteMentioning name properties => st.effect .count (st.deleteMentioning name properties)
  | .list name properties => (some ⟨(st.list name properties).map .paths, none⟩, st)
  | .setCacheEnabled _ => (none, st)

def after (rules : Rules) : Store → List Call → Store
  | st, [] => st
  | st, call :: rest => after rules (st.step rules call).2 rest

def replies (rules : Rules) : Store → List Call → List Reply
  | _, [] => []
  | st, call :: rest => (st.step rules call).1.toList ++ replies rules (st.step rules call).2 rest

end Store

/-! ## Services over a store -/

namespace Service

/-- The service stands over this store, and its cache mirrors it. -/
structure Over (s : Service) (st : Store) : Prop where
  store : s.store = st
  cache : s.cache.Mirrors st

theorem start_over (st : Store) (capacity : Nat) : (start st capacity).Over st :=
  ⟨rfl, Cache.mirrors_empty capacity st⟩

variable {rules : Rules} {s : Service} {st : Store} {path : Path}

/-! ### Reading -/

theorem readLevel_spec (path : Path) (h : s.Over st) :
    (s.readLevel path).1 = st.load path ∧ (s.readLevel path).2.Over st := by
  obtain ⟨rfl, hcache⟩ := h
  obtain ⟨hhit, hget⟩ := hcache.get path
  unfold readLevel
  cases hcached : (s.cache.get path).1 with
  | some node =>
    simp only [hcached]
    exact ⟨(hhit node hcached).symm, rfl, hget⟩
  | none =>
    simp only [hcached]
    cases hload : s.store.load path with
    | error e => exact ⟨rfl, rfl, hget⟩
    | ok held =>
      cases held with
      | none => exact ⟨rfl, rfl, hget⟩
      | some node => exact ⟨rfl, rfl, hget.put hload⟩

theorem readLevels_spec (paths : List Path) (h : s.Over st) :
    (s.readLevels paths).1 = paths.mapM st.load ∧ (s.readLevels paths).2.Over st := by
  induction paths generalizing s with
  | nil => exact ⟨rfl, h⟩
  | cons path rest ih =>
    obtain ⟨hlevel, hover⟩ := readLevel_spec path h
    rw [List.mapM_cons, ← hlevel, readLevels]
    cases hread : s.readLevel path with
    | mk level s' =>
      rw [hread] at hover
      cases level with
      | error e => exact ⟨rfl, hover⟩
      | ok level =>
        obtain ⟨hlevels, hover'⟩ := ih hover
        simp only [← hlevels]
        cases hrest : s'.readLevels rest with
        | mk levels s'' =>
          rw [hrest] at hover'
          cases levels <;> exact ⟨rfl, hover'⟩

/-! ### Loading -/

theorem load_spec (rules : Rules) (path : Path) (typeName : String) (h : s.Over st) :
    (s.load rules path typeName).result = (st.resolve rules path typeName).map Prod.fst ∧
      (s.load rules path typeName).report =
        (match st.resolve rules path typeName with
          | .ok (_, stale) => Merge.report? path stale
          | .error _ => none) ∧
      (s.load rules path typeName).service.Over st := by
  unfold load Store.resolve
  cases rules.rootType path typeName with
  | error e => exact ⟨rfl, rfl, h⟩
  | ok type =>
    obtain ⟨hlevels, hover⟩ := readLevels_spec path.ancestry h
    simp only [bind, Except.bind, ← hlevels]
    cases hread : s.readLevels path.ancestry with
    | mk levels s' =>
      rw [hread] at hover
      cases levels with
      | error e => exact ⟨rfl, rfl, hover⟩
      | ok levels =>
        simp only
        cases Service.resolve rules type path levels with
        | error e => exact ⟨rfl, rfl, hover⟩
        | ok r => exact ⟨rfl, rfl, hover⟩

theorem load_ok {typeName : String} {resolved : Option Resolved} (h : s.Over st)
    (hload : (s.load rules path typeName).result = .ok resolved) :
    ∃ stale, st.resolve rules path typeName = .ok (resolved, stale) ∧
      (s.load rules path typeName).report = Merge.report? path stale := by
  obtain ⟨hresult, hreport, -⟩ := load_spec rules path typeName h
  rw [hresult] at hload
  cases hresolve : st.resolve rules path typeName with
  | error e => simp [hresolve, Except.map] at hload
  | ok r =>
    obtain ⟨found, stale⟩ := r
    rw [hresolve] at hload hreport
    cases hload
    exact ⟨stale, rfl, hreport⟩

theorem load_of_resolve {typeName : String} {resolved : Option Resolved} {stale : Merge.Totals}
    (h : s.Over st) (hresolve : st.resolve rules path typeName = .ok (resolved, stale)) :
    (s.load rules path typeName).result = .ok resolved ∧
      (s.load rules path typeName).report = Merge.report? path stale := by
  obtain ⟨hresult, hreport, -⟩ := load_spec rules path typeName h
  rw [hresolve] at hresult hreport
  exact ⟨hresult, hreport⟩

/-! ### Saving -/

theorem ancestor_spec (rules : Rules) (type : Schema.Record) (path : Path) (h : s.Over st) :
    (s.ancestor rules type path).1 = st.ancestor rules type path ∧
      (s.ancestor rules type path).2.Over st := by
  unfold ancestor Store.ancestor
  cases path.parent? with
  | none => exact ⟨rfl, h⟩
  | some parent =>
    obtain ⟨hlevels, hover⟩ := readLevels_spec parent.ancestry h
    simp only [bind, Except.bind, ← hlevels]
    cases hread : s.readLevels parent.ancestry with
    | mk levels s' =>
      rw [hread] at hover
      cases levels <;> exact ⟨rfl, hover⟩

theorem write_op {st' : Store} {stamped : Node} {previous : Option Node} {loaded : Option Int}
    (h : write st stamped previous loaded = .ok st') :
    Store.Op st st' (· == stamped.definedAt) (some stamped) := by
  cases loaded with
  | some version => exact .update h
  | none =>
    cases previous with
    | some p => exact .update h
    | none => exact .save h

/-- The answer is that of the operation on the store, and the service follows the store. -/
structure Follows {α : Type} (a : Answer α) (st : Store) (outcome : Except Error (α × Store)) :
    Prop where
  result : a.result = outcome.map Prod.fst
  report : a.report = none
  service : a.service.Over (st.afterwards outcome)

theorem commit_spec {stamped : Node} {previous : Option Node} {loaded : Option Int} (h : s.Over st)
    (hst : st.Keeps) (hplace : stamped.definedAt = path) :
    Follows (s.commit path stamped previous loaded) st (st.commit stamped previous loaded) := by
  obtain ⟨rfl, hcache⟩ := h
  unfold commit Store.commit
  split
  · exact ⟨rfl, rfl, rfl, hcache⟩
  · cases hwrite : write s.store stamped previous loaded with
    | error e => exact ⟨rfl, rfl, rfl, hcache.remove⟩
    | ok st' =>
      have hsets := (hst.sets (write_op hwrite)).2
      rw [hplace] at hsets
      exact ⟨rfl, rfl, rfl, hcache.put_written hsets⟩

/-- A save fails before the store is asked to write, or it commits a node that is stamped for the
path. -/
theorem saveWith_cases (rules : Rules) (path : Path) (typeName : String) (node : Node)
    (loaded : Option Int) (h : s.Over st) :
    (∃ (e : Error) (s' : Service),
      s.saveWith rules path typeName node loaded = ⟨.error e, s', none⟩ ∧
      st.saveWith rules path typeName node loaded = .error e ∧ s'.Over st) ∨
    ∃ (stamped : Node) (previous : Option Node) (s' : Service), stamped.definedAt = path ∧
      s.saveWith rules path typeName node loaded = s'.commit path stamped previous loaded ∧
      st.saveWith rules path typeName node loaded = st.commit stamped previous loaded ∧
      s'.Over st := by
  unfold saveWith Store.saveWith
  cases rules.rootType path typeName with
  | error e => exact .inl ⟨e, s, rfl, rfl, h⟩
  | ok type =>
    simp only [bind, Except.bind]
    split
    · exact .inl ⟨_, s, rfl, rfl, h⟩
    · rw [h.store]
      cases st.load path with
      | error e => exact .inl ⟨e, s, rfl, rfl, h⟩
      | ok previous =>
        obtain ⟨habove, hover⟩ := ancestor_spec rules type path h
        simp only [← habove]
        cases hread : s.ancestor rules type path with
        | mk above s' =>
          rw [hread] at hover
          cases above with
          | error e => exact .inl ⟨e, s', rfl, rfl, hover⟩
          | ok above =>
            exact .inr ⟨_, previous, s', Stamp.definedAt_stamp .., rfl, rfl, hover⟩

theorem saveWith_spec (rules : Rules) (path : Path) (typeName : String) (node : Node)
    (loaded : Option Int) (h : s.Over st) (hst : st.Keeps) :
    Follows (s.saveWith rules path typeName node loaded) st
      (st.saveWith rules path typeName node loaded) := by
  rcases saveWith_cases rules path typeName node loaded h with
    ⟨e, s', hservice, hstore, hover⟩ | ⟨stamped, previous, s', hplace, hservice, hstore, hover⟩
  · rw [hservice, hstore]
    exact ⟨rfl, rfl, hover⟩
  · rw [hservice, hstore]
    exact commit_spec hover hst hplace

theorem saveWith_ok {typeName : String} {node stamped : Node} {loaded : Option Int} (h : s.Over st)
    (hst : st.Keeps) (hsave : (s.saveWith rules path typeName node loaded).result = .ok stamped) :
    ∃ st', st.saveWith rules path typeName node loaded = .ok (stamped, st') ∧
      (s.saveWith rules path typeName node loaded).service.Over st' := by
  obtain ⟨hresult, -, hservice⟩ := saveWith_spec rules path typeName node loaded h hst
  rw [hresult] at hsave
  cases hsaved : st.saveWith rules path typeName node loaded with
  | error e => simp [hsaved, Except.map] at hsave
  | ok r =>
    obtain ⟨written, st'⟩ := r
    rw [hsaved] at hsave hservice
    cases hsave
    exact ⟨st', rfl, hservice⟩

/-! ### Deleting -/

theorem delete_spec {below : Bool} (h : s.Over st) (hst : st.Keeps) :
    Follows (s.delete path below) st (st.delete path below) := by
  obtain ⟨rfl, hcache⟩ := h
  unfold delete
  cases hdelete : s.store.delete path below with
  | error e => exact ⟨rfl, rfl, rfl, hcache⟩
  | ok r =>
    have hsets := (hst.sets (.delete hdelete)).2
    refine ⟨rfl, rfl, rfl, ?_⟩
    cases below with
    | true => exact hcache.removeBelow_deleted hsets
    | false => exact hcache.remove_deleted hsets

theorem deleteMentioning_spec {name : String} {properties : List (String × String)}
    (h : s.Over st) :
    Follows (s.deleteMentioning name properties) st (st.deleteMentioning name properties) := by
  obtain ⟨rfl, hcache⟩ := h
  unfold deleteMentioning
  cases hdelete : s.store.deleteMentioning name properties with
  | error e => exact ⟨rfl, rfl, rfl, hcache⟩
  | ok r => exact ⟨rfl, rfl, rfl, Cache.mirrors_clear _ _⟩

/-! ### One call, and all calls -/

theorem Follows.reply {α : Type} {a : Answer α} {outcome : Except Error (α × Store)}
    (h : Follows a st outcome) (value : α → Value) :
    (a.reply value).1 = (st.effect value outcome).1 ∧
      (a.reply value).2.Over (st.effect value outcome).2 := by
  obtain ⟨hresult, hreport, hservice⟩ := h
  rw [Answer.reply, hresult, hreport]
  cases outcome with
  | error e => exact ⟨rfl, hservice⟩
  | ok r => exact ⟨rfl, hservice⟩

theorem step_spec (rules : Rules) (call : Call) (h : s.Over st) (hst : st.Keeps) :
    (s.step rules call).1 = (st.step rules call).1 ∧
      (s.step rules call).2.Over (st.step rules call).2 := by
  cases call with
  | load path typeName =>
    obtain ⟨hresult, hreport, hover⟩ := load_spec rules path typeName h
    rw [step, Store.step, Answer.reply, hresult, hreport]
    cases st.resolve rules path typeName with
    | error e => exact ⟨rfl, hover⟩
    | ok r => exact ⟨rfl, hover⟩
  | save path typeName node => exact (saveWith_spec rules path typeName node _ h hst).reply .node
  | saveChecked path typeName node loaded =>
    exact (saveWith_spec rules path typeName node _ h hst).reply .node
  | delete path below => exact (delete_spec h hst).reply .count
  | deleteMentioning name properties => exact (deleteMentioning_spec h).reply .count
  | list name properties =>
    obtain ⟨rfl, hcache⟩ := h
    exact ⟨rfl, rfl, hcache⟩
  | setCacheEnabled enabled => exact ⟨rfl, h.store, h.cache.setEnabled enabled⟩

end Service

end ScopedConfig
