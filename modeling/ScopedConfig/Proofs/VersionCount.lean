import ScopedConfig.Proofs.CheckedSave
import ScopedConfig.Proofs.Failure

/-!
# Versions count changes

As long as nothing is removed, the version of a snapshot is the number of writes that changed its
content, and no save is refused as stale that goes by the stored version.
-/

namespace ScopedConfig

open Scope (Path)
open Store (Memory)
open ScopedConfig.Except

/-! ## What a call writes -/

/-- The call removes snapshots. -/
def Call.removes : Call → Bool
  | delete .. | deleteMentioning .. => true
  | _ => false

/-- Where the node of the call is to be stored. -/
def Call.target? : Call → Option Path
  | save path _ _ | saveChecked path _ _ _ => some path
  | _ => none

/-- The node that the call stored at the path, if it was answered with one. -/
def Call.written? (call : Call) (path : Path) : Option Reply → Option Node
  | some ⟨.ok (.node n), _⟩ => if call.target? = some path then some n else none
  | _ => none

/-- The written node has other content than what was stored. -/
def changed (old written : Option Node) : Bool :=
  written.any fun n => !old.any fun o => o.sameContent n

def versionOf (held : Option Node) : Int := (held.map Node.version).getD 0

/-- What is stored at a path before and after a call that removes nothing: it is replaced by the
written node, which was stamped against it. -/
structure Replaced (rules : Rules) (path : Path) (old new written : Option Node) : Prop where
  stored : new = written.or old
  stamped : ∀ {n : Node}, written = some n →
    ∃ type node above, n = Stamp.forSave rules.schema type old node above path

section
variable {rules : Rules} {path : Path} {old new written : Option Node}

theorem Replaced.version (h : Replaced rules path old new written) :
    versionOf new = versionOf old + (changed old written).toNat := by
  rw [h.stored]
  cases hwritten : written with
  | none => simp [changed]
  | some n =>
    obtain ⟨type, node, above, rfl⟩ := h.stamped hwritten
    cases old with
    | none => simp [versionOf, changed, Stamp.forSave, Stamp.versionAfter]
    | some o =>
      cases hsame : o.sameContent node <;>
        simp [versionOf, changed, Stamp.forSave, Stamp.versionAfter, Stamp.sameContent_stamp, hsame]

end

/-! ## Calls on a store -/

namespace Store

variable {rules : Rules} {st st' : Store} {path q : Path} {call : Call}

theorem saveWith_replaced {typeName : String} {node stamped : Node} {loaded : Option Int}
    (hst : st.Keeps) (h : st.saveWith rules q typeName node loaded = .ok (stamped, st')) :
    Replaced rules path (st.stored? path) (st'.stored? path)
      (if q = path then some stamped else none) := by
  obtain ⟨hheld, hothers⟩ := load_saved hst h
  by_cases hq : q = path
  · subst hq
    rw [if_pos rfl]
    refine ⟨stored?_eq_some.2 hheld, ?_⟩
    rintro _ ⟨⟩
    obtain ⟨type, previous, above, -, hprevious, -, hstamped, -⟩ := saveWith_ok h
    refine ⟨type, node, above, ?_⟩
    rw [stored?, hprevious]
    exact hstamped
  · rw [if_neg hq]
    refine ⟨?_, by rintro _ ⟨⟩⟩
    rw [stored?, hothers path (Ne.symm hq), stored?, Option.none_or]

theorem effect_replaced {typeName : String} {node : Node} {loaded : Option Int} (hst : st.Keeps)
    (htarget : call.target? = some q) :
    Replaced rules path (st.stored? path)
      ((st.effect .node (st.saveWith rules q typeName node loaded)).2.stored? path)
      (call.written? path (st.effect .node (st.saveWith rules q typeName node loaded)).1) := by
  cases h : st.saveWith rules q typeName node loaded with
  | error e => exact ⟨rfl, by rintro _ ⟨⟩⟩
  | ok r =>
    obtain ⟨stamped, st'⟩ := r
    have hreplaced : Replaced rules path (st.stored? path) (st'.stored? path)
        (if q = path then some stamped else none) := saveWith_replaced hst h
    simpa [effect, afterwards, Except.map, Call.written?, htarget] using hreplaced

theorem step_replaced (hst : st.Keeps) (hkept : call.removes = false) :
    Replaced rules path (st.stored? path) ((st.step rules call).2.stored? path)
      (call.written? path (st.step rules call).1) := by
  cases call with
  | load path typeName =>
    rw [step]
    cases st.resolve rules path typeName <;> exact ⟨rfl, by rintro _ ⟨⟩⟩
  | save | saveChecked => exact effect_replaced hst rfl
  | delete | deleteMentioning => cases hkept
  | list name properties =>
    rw [step]
    cases st.list name properties <;> exact ⟨rfl, by rintro _ ⟨⟩⟩
  | setCacheEnabled => exact ⟨rfl, by rintro _ ⟨⟩⟩

theorem moments_stored (rules : Rules) {calls : List Call} (hst : st.Keeps)
    (hkept : ∀ call ∈ calls, call.removes = false) (hheld : (st.stored? path).isSome = true) :
    ∀ m ∈ st.moments rules calls, (m.stored? path).isSome = true := by
  induction calls generalizing st with
  | nil => simpa [moments] using hheld
  | cons call rest ih =>
    rw [List.forall_mem_cons] at hkept
    rw [moments, List.forall_mem_cons]
    refine ⟨hheld, ih (step_keeps call hst) hkept.2 ?_⟩
    rw [(step_replaced hst hkept.1).stored, Option.isSome_or, hheld, Bool.or_true]

theorem step_memory (rules : Rules) (m : Memory) (call : Call) :
    ∃ m', ((memory m).step rules call).2 = memory m' := by
  obtain hsame | ⟨node, -, path, type, previous, above, -, -, hop⟩ | ⟨condition, hop⟩ :=
    step_change rules (memory m) call
  · exact ⟨m, hsame⟩
  · exact (lawful_memory.sets ⟨m, rfl⟩ hop).1
  · exact (lawful_memory.sets ⟨m, rfl⟩ hop).1

end Store

/-! ## Saves that are refused -/

theorem Rules.rootType_error {rules : Rules} {path : Path} {typeName : String} {e : Error}
    (h : rules.rootType path typeName = .error e) : e.isStale = false := by
  unfold Rules.rootType at h
  dsimp only at h
  split at h
  · cases h
    rfl
  · split at h
    · rcases bind_eq_error.1 h with h | ⟨_, -, h⟩
      · obtain ⟨fault, -, rfl⟩ := mapError_eq_error.1 h
        rfl
      · rw [Schema.require_error h]
        rfl
    · rw [Schema.require_error h]
      rfl

theorem Merge.Blames.isStale {rules : Merge.Rules} {fit : Prop} {e : Error}
    (h : Merge.Blames rules fit e) : e.isStale = false := by
  cases h with
  | data h => rw [h]; rfl
  | schema _ _ h => obtain ⟨fault, rfl⟩ | ⟨fault, rfl⟩ := Schema.check_error h <;> rfl

namespace Store

variable {rules : Rules} {m : Memory} {path : Path} {typeName : String} {e : Error}

theorem mapM_load_memory (m : Memory) (paths : List Path) :
    paths.mapM (memory m).load = .ok (paths.map m.load) := by
  induction paths with
  | nil => rfl
  | cons path rest ih =>
    rw [List.mapM_cons, ih]
    rfl

theorem ancestor_error {type : Schema.Record} (htype : type ∈ rules.schema.records)
    (h : (memory m).ancestor rules type path = .error e) : e.isStale = false := by
  unfold ancestor at h
  split at h
  · cases h
  · rw [mapM_load_memory] at h
    rcases bind_eq_error.1 h with h | ⟨levels, -, h⟩
    · cases h
    · exact (Merge.levels_error htype (map_eq_error.1 h)).isStale

theorem update_error {node : Node} {loaded : Int} (h : (memory m).update node loaded = .error e) :
    loaded ≠ versionOf (m.load node.definedAt) := by
  rcases bind_eq_error.1 (map_eq_error.1 h) with h | ⟨_, -, h⟩
  · rintro rfl
    simp [checkVersion, versionOf] at h
  · cases h

theorem saveWith_stale {node : Node} {loaded : Option Int}
    (h : (memory m).saveWith rules path typeName node loaded = .error e)
    (hstale : e.isStale = true) : ∃ version, loaded = some version ∧ version ≠ versionOf (m.load path) := by
  have other {P : Prop} (h : e.isStale = false) : P := by simp [hstale] at h
  rcases bind_eq_error.1 h with h | ⟨type, htype, h⟩
  · exact other (Rules.rootType_error h)
  split at h
  · cases h
    cases hstale
  rcases bind_eq_error.1 h with h | ⟨previous, hprevious, h⟩
  · cases h
  rcases bind_eq_error.1 h with h | ⟨above, -, h⟩
  · obtain ⟨-, -, hrequire⟩ := Rules.rootType_ok.1 htype
    exact other (ancestor_error (Schema.mem_records (Merge.require_ok hrequire)) h)
  obtain rfl : m.load path = previous := Except.ok.inj hprevious
  unfold commit at h
  split at h
  · cases h
  have hwrite := map_eq_error.1 h
  cases loaded with
  | some version =>
    have hne := update_error hwrite
    rw [Stamp.forSave, Stamp.definedAt_stamp] at hne
    exact ⟨version, rfl, hne⟩
  | none =>
    -- Any other save goes by the version that it has just read.
    cases hheld : m.load path with
    | none =>
      rw [hheld] at hwrite
      cases hwrite
    | some p =>
      rw [hheld] at hwrite
      have hne := update_error hwrite
      rw [Stamp.forSave, Stamp.definedAt_stamp, hheld] at hne
      exact absurd rfl hne

end Store

/-! ## Services -/

namespace Service

/-- The version of the stored snapshot, or 0. -/
def versionAt (s : Service) (path : Path) : Int := versionOf (s.store.stored? path)

/-- The node that the call stores at the path, if it goes through. -/
def written? (rules : Rules) (s : Service) (path : Path) (call : Call) : Option Node :=
  call.written? path (s.step rules call).1

/-- The call stores other content at the path than there is. -/
def changes (rules : Rules) (s : Service) (path : Path) (call : Call) : Bool :=
  changed (s.store.stored? path) (s.written? rules path call)

def countChanges (rules : Rules) (path : Path) : Service → List Call → Nat
  | _, [] => 0
  | s, call :: rest =>
    (s.changes rules path call).toNat + countChanges rules path (s.step rules call).2 rest

/-- The service stands over a store in memory, and all snapshots there were stored by a service. -/
def InMemory (s : Service) : Prop := ∃ m, s.Over (.memory m) ∧ (Store.memory m).Sound

variable {rules : Rules} {s : Service} {path : Path} {typeName : String}

theorem start_inMemory (capacity : Nat) : (start (.memory .empty) capacity).InMemory :=
  ⟨.empty, start_over _ capacity, Store.sound_of_empty fun _ => rfl⟩

theorem InMemory.step {call : Call} (h : s.InMemory) (hordered : call.isOrdered = true) :
    (s.step rules call).2.InMemory := by
  obtain ⟨m, hover, hsound⟩ := h
  have hst := Store.keeps_memory m
  obtain ⟨m', hm'⟩ := Store.step_memory rules m call
  have hover' := (step_spec rules call hover hst).2
  have hsound' : ((Store.memory m).step rules call).2.Sound := Store.step_sound hst hsound hordered
  rw [hm'] at hover' hsound'
  exact ⟨m', hover', hsound'⟩

theorem InMemory.after (rules : Rules) {calls : List Call} (h : s.InMemory)
    (hordered : ∀ call ∈ calls, call.isOrdered = true) : (s.after rules calls).InMemory := by
  induction calls generalizing s with
  | nil => exact h
  | cons call rest ih =>
    rw [List.forall_mem_cons] at hordered
    exact ih (h.step hordered.1) hordered.2

theorem InMemory.replaced (rules : Rules) (path : Path) {call : Call} (h : s.InMemory)
    (hkept : call.removes = false) :
    Replaced rules path (s.store.stored? path) ((s.step rules call).2.store.stored? path)
      (s.written? rules path call) := by
  obtain ⟨m, hover, -⟩ := h
  have hst := Store.keeps_memory m
  obtain ⟨hreply, hover'⟩ := step_spec rules call hover hst
  rw [written?, hreply, hover.store, hover'.store]
  exact Store.step_replaced hst hkept

theorem InMemory.versionAt_step {call : Call} (h : s.InMemory) (hkept : call.removes = false) :
    (s.step rules call).2.versionAt path =
      s.versionAt path + (s.changes rules path call).toNat :=
  (h.replaced rules path hkept).version

theorem InMemory.versionAt_after (rules : Rules) (path : Path) {calls : List Call} (h : s.InMemory)
    (hordered : ∀ call ∈ calls, call.isOrdered = true)
    (hkept : ∀ call ∈ calls, call.removes = false) :
    (s.after rules calls).versionAt path = s.versionAt path + s.countChanges rules path calls := by
  induction calls generalizing s with
  | nil => simp [Service.after, countChanges]
  | cons call rest ih =>
    rw [List.forall_mem_cons] at hordered hkept
    rw [Service.after, ih (h.step hordered.1) hordered.2 hkept.2, h.versionAt_step hkept.1,
      countChanges]
    omega

theorem InMemory.versionAt_eq_zero (h : s.InMemory) :
    s.versionAt path = 0 ↔ s.store.stored? path = none := by
  obtain ⟨m, hover, hsound⟩ := h
  rw [versionAt, hover.store]
  cases hheld : (Store.memory m).stored? path with
  | none => simp [versionOf]
  | some n =>
    have hversion := (hsound hheld).version
    simp only [versionOf, Option.map_some, Option.getD_some, reduceCtorEq, iff_false]
    omega

/-- One version has one content as long as nothing is removed. -/
theorem InMemory.content {calls : List Call} {a b : Node} (h : s.InMemory)
    (hordered : ∀ call ∈ calls, call.isOrdered = true)
    (hkept : ∀ call ∈ calls, call.removes = false) (ha : s.store.stored? path = some a)
    (hb : (s.after rules calls).store.stored? path = some b) (hversion : a.version = b.version) :
    a.sameContent b = true ∧ b.sameContent a = true := by
  obtain ⟨m, hover, hsound⟩ := h
  have hst := Store.keeps_memory m
  obtain ⟨-, hover'⟩ := run_spec rules calls hover hst
  have hsound' : ((Store.memory m).after rules calls).Sound := Store.after_sound hst hsound hordered
  rw [hover.store] at ha
  rw [hover'.store] at hb
  have hheld := Store.moments_stored rules hst hkept (by rw [ha]; rfl)
  have hnewer : b.Supersedes a :=
    Store.after_supersedes (fun st => st.stored? path) Store.step_supersedes hst hheld ha hb
  have hsame : a.sameContent b = true := by
    rcases hnewer.content hversion with rfl | hcontent
    · exact Node.sameContent_refl (hsound ha).ordered
    · exact hcontent
  exact ⟨hsame, Node.sameContent_symm (hsound ha).ordered (hsound' hb).ordered hsame⟩

theorem InMemory.saveWith_stale {node : Node} {loaded : Option Int} {e : Error} (h : s.InMemory)
    (hsave : (s.saveWith rules path typeName node loaded).result = .error e)
    (hstale : e.isStale = true) :
    ∃ version, loaded = some version ∧ version ≠ s.versionAt path := by
  obtain ⟨m, hover, -⟩ := h
  have hspec := saveWith_spec rules path typeName node loaded hover (Store.keeps_memory m)
  rw [hspec.result] at hsave
  rw [versionAt, hover.store]
  exact Store.saveWith_stale (map_eq_error.1 hsave) hstale

theorem InMemory.load_version {resolved : Option Resolved} (h : s.InMemory)
    (hload : (s.load rules path typeName).result = .ok resolved) :
    (resolved.map Resolved.storedVersion).getD 0 = s.versionAt path := by
  obtain ⟨m, hover, -⟩ := h
  obtain ⟨stale, hresolve, -⟩ := load_ok hover hload
  obtain ⟨held, hheld, hversion⟩ := Store.resolve_version hresolve
  rw [versionAt, hover.store, Store.stored?, hheld]
  exact hversion.symm

end Service

/-- Versions in a run without removals. A path has version 0 while nothing is stored there, and a
call adds one to it exactly if it stores other content there than there is; the first version is 1.
So the version grows by the number of such calls, and one version has one content. A plain save is
never refused as stale, and a checked save is not if no such call came after the load whose version
it goes by. -/
theorem version_history {rules : Rules} {capacity : Nat} {before between : List Call} {path : Path}
    {earlier later : Service}
    (hearlier : (Service.start (.memory .empty) capacity).after rules before = earlier)
    (hlater : earlier.after rules between = later)
    (hordered : ∀ call ∈ before ++ between, call.isOrdered = true)
    (hkept : ∀ call ∈ before ++ between, call.removes = false) :
    (later.versionAt path = 0 ↔ later.store.stored? path = none) ∧
      (∀ call, call.removes = false →
        (later.step rules call).2.store.stored? path =
          (later.written? rules path call).or (later.store.stored? path) ∧
        (later.step rules call).2.versionAt path =
          later.versionAt path + (later.changes rules path call).toNat ∧
        ∀ n, later.store.stored? path = none → later.written? rules path call = some n →
          n.version = 1) ∧
      (later.versionAt path = earlier.versionAt path + earlier.countChanges rules path between ∧
        earlier.versionAt path ≤ later.versionAt path) ∧
      (∀ a b, earlier.store.stored? path = some a → later.store.stored? path = some b →
        a.version = b.version → a.sameContent b = true ∧ b.sameContent a = true) ∧
      (∀ typeName node e, (later.save rules path typeName node).result = .error e →
        e.isStale = false) ∧
      ∀ typeName typeName' node resolved e,
        (earlier.load rules path typeName).result = .ok resolved →
        earlier.countChanges rules path between = 0 →
        (later.saveChecked rules path typeName' node
          ((resolved.map Resolved.storedVersion).getD 0)).result = .error e →
        e.isStale = false := by
  subst hearlier hlater
  rw [List.forall_mem_append] at hordered hkept
  -- Both ends of the run hold the invariant `InMemory`, from which every part is read off.
  have hfirst := (Service.start_inMemory capacity).after rules hordered.1
  have hlast := hfirst.after rules hordered.2
  have hcount := hfirst.versionAt_after rules path hordered.2 hkept.2
  refine ⟨hlast.versionAt_eq_zero, fun call hcall => ?_, ⟨hcount, by omega⟩,
    fun a b => hfirst.content hordered.2 hkept.2, fun typeName node e hsave => ?_,
    fun typeName typeName' node resolved e hload hzero hsave => ?_⟩
  · have hreplaced := hlast.replaced rules path hcall
    refine ⟨hreplaced.stored, hreplaced.version, fun n hnone hn => ?_⟩
    have hversion := hreplaced.version
    rw [hreplaced.stored, hnone, hn] at hversion
    simpa [versionOf, changed] using hversion
  · rw [← Bool.not_eq_true]
    intro hstale
    obtain ⟨version, hloaded, -⟩ := hlast.saveWith_stale hsave hstale
    cases hloaded
  · rw [← Bool.not_eq_true]
    intro hstale
    obtain ⟨version, hloaded, hne⟩ := hlast.saveWith_stale hsave hstale
    cases hloaded
    apply hne
    rw [hfirst.load_version hload, hcount, hzero]
    simp

namespace Sample

/-- Another user is saved, and the global snapshot once more as it is. -/
def unchanged : List Call := [save alice "8080", .load alice "App", save global "80"]

/-- The global snapshot stays at version 1 until it gets another number, and a client that loaded
version 1 is not refused. -/
theorem global_version_counts :
    (∀ call ∈ [save global "80"] ++ unchanged, call.isOrdered = true ∧ call.removes = false) ∧
      ((served [save global "80"]).after rules unchanged).versionAt global = 1 ∧
      (((served [save global "80"]).after rules unchanged).step rules
        (save global "81")).2.versionAt global = 2 ∧
      ∀ node e, (((served [save global "80"]).after rules unchanged).saveChecked rules global "App"
        node 1).result = .error e → e.isStale = false := by
  have hcalls : ∀ call ∈ [save global "80"] ++ unchanged,
      call.isOrdered = true ∧ call.removes = false := by decide
  obtain ⟨-, hstep, ⟨hcount, -⟩, -, -, hchecked⟩ :=
    @version_history rules 2 [save global "80"] unchanged global _ _ rfl rfl
      (fun call hcall => (hcalls call hcall).1) fun call hcall => (hcalls call hcall).2
  have hzero : (served [save global "80"]).countChanges rules global unchanged = 0 := rfl
  refine ⟨hcalls, ?_, ?_, ?_⟩
  · exact hcount
  · exact (hstep (save global "81") rfl).2.1
  · intro node e hsave
    exact hchecked "App" "App" node _ e rfl hzero hsave

end Sample

end ScopedConfig
