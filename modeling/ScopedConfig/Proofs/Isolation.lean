import ScopedConfig.Proofs.Levels
import ScopedConfig.Proofs.VersionCount

/-!
# Writes stay below their path

A save reads the levels of its path and writes one snapshot there; a removal touches nothing but its
path and what is below. So a load of a path that is not below is answered as before, and saves at
two paths, neither of which is below the other, can change places.
-/

namespace ScopedConfig

open Scope (Path)
open Store (Memory)
open ScopedConfig.Except

/-! ## Paths that a path extends -/

namespace Scope.Path

theorem extends?_iff {p q : Path} : q.extends? p = true ↔ p.segments <+: q.segments := by
  rw [extends?, List.isPrefixOf_iff_prefix]

theorem extends?_of_mem_ancestry {q r : Path} (h : r ∈ q.ancestry) : q.extends? r = true := by
  obtain ⟨k, -, rfl⟩ := List.mem_map.1 h
  rw [extends?_iff, segments_upTo]
  exact List.take_prefix ..

theorem extends?_trans {p q r : Path} (hqr : q.extends? r = true) (hrp : r.extends? p = true) :
    q.extends? p = true := by
  rw [extends?_iff] at *
  exact hrp.trans hqr

theorem extends?_self (p : Path) : p.extends? p = true := extends?_iff.2 (List.prefix_refl _)

theorem not_extends_of_mem {p q r : Path} (h : q.extends? p = false) (hr : r ∈ q.ancestry) :
    r.extends? p = false := by
  rw [← Bool.not_eq_true] at *
  exact fun hrp => h (extends?_trans (extends?_of_mem_ancestry hr) hrp)

theorem ne_of_not_extends {p r : Path} (h : r.extends? p = false) : r ≠ p := by
  rintro rfl
  rw [extends?_self] at h
  cases h

end Scope.Path

/-! ## Two insertions -/

namespace Keyed

variable {κ α : Type} [Ord κ] [Std.TransOrd κ] [Std.LawfulEqOrd κ]

theorem insert_comm_of_lt {k k' : κ} (a a' : α) (h : compare k k' = .lt) (l : List (κ × α)) :
    insert k a (insert k' a' l) = insert k' a' (insert k a l) := by
  have hgt : compare k' k = .gt := Std.OrientedCmp.gt_of_lt h
  induction l with
  | nil => simp [insert, h, hgt]
  | cons e rest ih =>
    obtain ⟨b, c⟩ := e
    cases hb : compare k' b with
    | lt =>
      have hk : compare k b = .lt := Std.TransCmp.lt_trans h hb
      simp [insert, h, hgt, hb, hk]
    | eq =>
      obtain rfl : k' = b := Std.LawfulEqOrd.eq_of_compare hb
      simp [insert, h, hgt]
    | gt => cases hk : compare k b <;> simp [insert, hb, hk, hgt, ih]

theorem insert_comm {k k' : κ} (a a' : α) (h : k ≠ k') (l : List (κ × α)) :
    insert k a (insert k' a' l) = insert k' a' (insert k a l) := by
  cases hc : compare k k' with
  | lt => exact insert_comm_of_lt a a' hc l
  | eq => exact absurd (Std.LawfulEqOrd.eq_of_compare hc) h
  | gt => exact (insert_comm_of_lt a' a (Std.OrientedCmp.lt_of_gt hc) l).symm

end Keyed

theorem Store.Memory.save_comm {m : Memory} {a b : Node} (h : a.definedAt ≠ b.definedAt) :
    (m.save a).save b = (m.save b).save a := by
  rw [save, save, save, save, Keyed.insert_comm _ _ h.symm]

/-! ## What a call leaves alone -/

/-- The path at which the call stores or removes snapshots. -/
def Call.place? : Call → Option Path
  | save path _ _ | saveChecked path _ _ _ | delete path _ => some path
  | _ => none

namespace Store

variable {rules : Rules} {st : Store} {p q : Path}

theorem effect_load {typeName : String} {node : Node} {loaded : Option Int} (hst : st.Keeps)
    (hq : q ≠ p) :
    (st.effect .node (st.saveWith rules p typeName node loaded)).2.load q = st.load q := by
  cases h : st.saveWith rules p typeName node loaded with
  | error e => rfl
  | ok r => exact (load_saved hst h).2 q hq

/-- A call at a path changes nothing that is stored elsewhere than there or below. -/
theorem step_load_outside {call : Call} (hst : st.Keeps) (hplace : call.place? = some p)
    (hq : q.extends? p = false) : (st.step rules call).2.load q = st.load q := by
  have hne : q ≠ p := Path.ne_of_not_extends hq
  cases call with
  | load | deleteMentioning | list | setCacheEnabled => cases hplace
  | save | saveChecked =>
    cases hplace
    exact effect_load hst hne
  | delete path below =>
    cases hplace
    rw [step]
    cases h : st.delete p below with
    | error e => rfl
    | ok r =>
      have hload := (hst.sets (.delete h)).2 q
      cases below <;> simpa [effect, afterwards, hq, hne] using hload

theorem resolve_congr {st' : Store} {typeName : String}
    (h : ∀ r ∈ q.ancestry, st'.load r = st.load r) :
    st'.resolve rules q typeName = st.resolve rules q typeName := by
  rw [resolve, resolve, mapM_load_congr h]

/-! ## What a save in memory reads -/

/-- Whether committing writes the node or finds it stored, unless it is refused. -/
def verdict (path : Path) (stamped : Node) (previous : Option Node) (loaded : Option Int) :
    Except Error Bool :=
  if loaded.isNone && previous == some stamped then .ok false
  else (checkVersion path previous (loaded.getD (versionOf previous))).map fun _ => true

theorem update_memory (m : Memory) (node : Node) (loaded : Int) :
    (memory m).update node loaded =
      (checkVersion node.definedAt (m.load node.definedAt) loaded).map fun _ =>
        memory (m.save node) := by
  rw [Store.update, Memory.update]
  cases checkVersion node.definedAt (m.load node.definedAt) loaded <;> rfl

theorem commit_memory (m : Memory) {path : Path} {stamped : Node} {loaded : Option Int}
    (hplace : stamped.definedAt = path) :
    (memory m).commit stamped (m.load path) loaded =
      (verdict path stamped (m.load path) loaded).map fun writes =>
        (stamped, memory (if writes then m.save stamped else m)) := by
  subst hplace
  rw [commit, verdict]
  split
  case isTrue => rfl
  case isFalse =>
    have hwrite : Service.write (memory m) stamped (m.load stamped.definedAt) loaded =
        (checkVersion stamped.definedAt (m.load stamped.definedAt)
          (loaded.getD (versionOf (m.load stamped.definedAt)))).map fun _ =>
            memory (m.save stamped) := by
      cases loaded with
      | some version => exact update_memory m stamped version
      | none =>
        cases hheld : m.load stamped.definedAt with
        | none => rfl
        | some p =>
          rw [Service.write, update_memory, hheld]
          rfl
    rw [hwrite]
    cases checkVersion stamped.definedAt (m.load stamped.definedAt)
      (loaded.getD (versionOf (m.load stamped.definedAt))) <;> rfl

/-- A save up to the write: the stamped node, and whether it is to be written. -/
def Memory.settle (rules : Rules) (m : Memory) (path : Path) (typeName : String) (node : Node)
    (loaded : Option Int) : Except Error (Node × Bool) := do
  let type ← rules.rootType path typeName
  if node.kind ≠ .complex then throw (.corrupt path.text (.rootNotComplex node.kind))
  let above ← (memory m).ancestor rules type path
  let stamped := Stamp.forSave rules.schema type (m.load path) node above path
  let writes ← verdict path stamped (m.load path) loaded
  return (stamped, writes)

section
variable {m m' : Memory} {path : Path} {typeName : String} {node : Node} {loaded : Option Int}

theorem saveWith_memory :
    (memory m).saveWith rules path typeName node loaded =
      (m.settle rules path typeName node loaded).map fun r =>
        (r.1, memory (if r.2 then m.save r.1 else m)) := by
  rw [saveWith, Memory.settle]
  cases rules.rootType path typeName with
  | error e => rfl
  | ok type =>
    simp only [bind, Except.bind]
    split
    case isTrue => rfl
    case isFalse =>
      rw [Store.load]
      cases (memory m).ancestor rules type path with
      | error e => rfl
      | ok above =>
        simp only [commit_memory m (Stamp.definedAt_stamp ..), Stamp.forSave]
        cases verdict path (Stamp.stamp rules.schema path (.type type) (m.load path) above node)
          (m.load path) loaded <;> rfl

theorem Memory.settle_place {stamped : Node} {writes : Bool}
    (h : m.settle rules path typeName node loaded = .ok (stamped, writes)) :
    stamped.definedAt = path := by
  obtain ⟨type, -, h⟩ := bind_eq_ok.1 h
  split at h
  · cases h
  · obtain ⟨above, -, h⟩ := bind_eq_ok.1 h
    obtain ⟨_, -, h⟩ := bind_eq_ok.1 h
    obtain ⟨rfl, -⟩ := pure_pair_eq_ok.1 h
    exact Stamp.definedAt_stamp ..

theorem Memory.settle_congr (h : ∀ q ∈ path.ancestry, m'.load q = m.load q) :
    m'.settle rules path typeName node loaded = m.settle rules path typeName node loaded := by
  have habove (type : Schema.Record) :
      (memory m').ancestor rules type path = (memory m).ancestor rules type path := by
    cases hparent : path.parent? with
    | none => simp only [ancestor, hparent]
    | some parent =>
      refine ancestor_congr hparent fun q hq => congrArg Except.ok (h q ?_)
      rw [Path.ancestry_of_parent hparent]
      exact List.mem_append_left _ hq
  simp only [Memory.settle, habove, h path path.mem_ancestry_self]

end

/-! ## Two saves -/

section
variable {m : Memory} {nameP nameQ : String} {nodeP nodeQ : Node} {loadedP loadedQ : Option Int}

/-- What a save that was settled leaves in memory. -/
def Memory.put (m : Memory) : Except Error (Node × Bool) → Memory
  | .ok (stamped, true) => m.save stamped
  | .ok (_, false) | .error _ => m

theorem afterwards_saveWith :
    (memory m).afterwards ((memory m).saveWith rules p nameP nodeP loadedP) =
      memory (m.put (m.settle rules p nameP nodeP loadedP)) := by
  rw [saveWith_memory]
  match m.settle rules p nameP nodeP loadedP with
  | .ok (stamped, true) | .ok (_, false) | .error _ => rfl

theorem Memory.put_settle_outside {m₀ : Memory} (h : q ≠ p) :
    (m.put (m₀.settle rules p nameP nodeP loadedP)).load q = m.load q := by
  match hsettle : m₀.settle rules p nameP nodeP loadedP with
  | .ok (stamped, true) =>
    rw [Memory.put, Memory.load_save, Memory.settle_place hsettle, beq_eq_false_iff_ne.2 h]
    rfl
  | .ok (_, false) | .error _ => rfl

theorem Memory.put_comm {a b : Except Error (Node × Bool)}
    (h : ∀ {x y : Node}, a = .ok (x, true) → b = .ok (y, true) → x.definedAt ≠ y.definedAt) :
    (m.put a).put b = (m.put b).put a := by
  match a, b with
  | .ok (x, true), .ok (y, true) => exact Memory.save_comm (h rfl rfl)
  | .ok (_, true), .ok (_, false) | .ok (_, true), .error _ | .ok (_, false), _ | .error _, _ => rfl

theorem Memory.settle_put {m₀ : Memory} (h : q.extends? p = false) :
    (m.put (m₀.settle rules p nameP nodeP loadedP)).settle rules q nameQ nodeQ loadedQ =
      m.settle rules q nameQ nodeQ loadedQ :=
  Memory.settle_congr fun _ hr =>
    Memory.put_settle_outside (Path.ne_of_not_extends (Path.not_extends_of_mem h hr))

end

end Store

/-! ## Services -/

namespace Service

variable {rules : Rules} {s : Service} {st : Store} {p q : Path} {typeName : String}

theorem load_congr {s' : Service} {st' : Store} (hover : s.Over st) (hover' : s'.Over st')
    (h : ∀ r ∈ q.ancestry, st'.load r = st.load r) :
    (s'.load rules q typeName).result = (s.load rules q typeName).result ∧
      (s'.load rules q typeName).report = (s.load rules q typeName).report := by
  obtain ⟨hresult, hreport, -⟩ := load_spec rules q typeName hover
  obtain ⟨hresult', hreport', -⟩ := load_spec rules q typeName hover'
  rw [Store.resolve_congr h] at hresult' hreport'
  exact ⟨hresult'.trans hresult.symm, hreport'.trans hreport.symm⟩

theorem saveWith_settle (rules : Rules) (p : Path) (typeName : String) (node : Node)
    (loaded : Option Int) {m : Memory} (hover : s.Over (.memory m)) :
    (s.saveWith rules p typeName node loaded).result =
        (m.settle rules p typeName node loaded).map Prod.fst ∧
      (s.saveWith rules p typeName node loaded).service.Over
        (.memory (m.put (m.settle rules p typeName node loaded))) := by
  obtain ⟨hresult, -, hservice⟩ :=
    saveWith_spec rules p typeName node loaded hover (Store.keeps_memory m)
  rw [Store.afterwards_saveWith] at hservice
  refine ⟨?_, hservice⟩
  rw [hresult, Store.saveWith_memory]
  cases m.settle rules p typeName node loaded <;> rfl

end Service

/-- After a save or a deletion at a path, every load of a path that is not that path or below it is
answered as before, with the same report. Two saves at paths, neither of which is below the other,
are answered alike in both orders and leave the same store. -/
theorem writes_isolated {rules : Rules} {m : Memory} {capacity : Nat} {history : List Call}
    {s : Service} (hs : (Service.start (.memory m) capacity).after rules history = s) :
    (∀ (call : Call) (p q : Path) (typeName : String), call.place? = some p →
      q.extends? p = false →
      ((s.step rules call).2.load rules q typeName).result = (s.load rules q typeName).result ∧
        ((s.step rules call).2.load rules q typeName).report =
          (s.load rules q typeName).report) ∧
      ∀ (p q : Path) (nameP nameQ : String) (nodeP nodeQ : Node) (loadedP loadedQ : Option Int)
        (firstP thenQ firstQ thenP : Answer Node), p.extends? q = false → q.extends? p = false →
        s.saveWith rules p nameP nodeP loadedP = firstP →
        firstP.service.saveWith rules q nameQ nodeQ loadedQ = thenQ →
        s.saveWith rules q nameQ nodeQ loadedQ = firstQ →
        firstQ.service.saveWith rules p nameP nodeP loadedP = thenP →
        firstP.result = thenP.result ∧ thenQ.result = firstQ.result ∧
          thenQ.service.store = thenP.service.store := by
  obtain ⟨-, hover⟩ := Service.run_spec rules history (Service.start_over (.memory m) capacity)
    (Store.keeps_memory m)
  rw [hs] at hover
  constructor
  · intro call p q typeName hplace hpq
    have hst := Store.after_keeps rules history (Store.keeps_memory m)
    exact Service.load_congr hover (Service.step_spec rules call hover hst).2 fun r hr =>
      Store.step_load_outside hst hplace (Path.not_extends_of_mem hpq hr)
  · rintro p q nameP nameQ nodeP nodeQ loadedP loadedQ _ _ _ _ hpq hqp rfl rfl rfl rfl
    obtain ⟨m', hm'⟩ : ∃ m', (Store.memory m).after rules history = .memory m' :=
      Store.after_induction (motive := fun st => ∃ m', st = .memory m') (Store.keeps_memory m)
        ⟨m, rfl⟩ fun {st call} _ _ ⟨m', hst⟩ => hst ▸ Store.step_memory rules m' call
    rw [hm'] at hover
    obtain ⟨hfirstP, hoverP⟩ := Service.saveWith_settle rules p nameP nodeP loadedP hover
    obtain ⟨hfirstQ, hoverQ⟩ := Service.saveWith_settle rules q nameQ nodeQ loadedQ hover
    obtain ⟨hthenQ, hoverPQ⟩ := Service.saveWith_settle rules q nameQ nodeQ loadedQ hoverP
    obtain ⟨hthenP, hoverQP⟩ := Service.saveWith_settle rules p nameP nodeP loadedP hoverQ
    -- Neither save changes what the other one stores, and their puts go to different paths.
    rw [Memory.settle_put hqp] at hthenQ hoverPQ
    rw [Memory.settle_put hpq] at hthenP hoverQP
    refine ⟨hfirstP.trans hthenP.symm, hthenQ.trans hfirstQ.symm, ?_⟩
    rw [hoverPQ.store, hoverQP.store, Memory.put_comm]
    intro x y hx hy hplace
    rw [Memory.settle_place hx, Memory.settle_place hy] at hplace
    exact Path.ne_of_not_extends hpq hplace

namespace Sample

/-- Saving one user leaves the load of the other, whose number is outdated, as it was, and two
users can be saved in either order. -/
theorem users_isolated :
    (outdated.load rules alice "App").report = some ⟨alice, ⟨1, 0⟩⟩ ∧
      (((outdated.step rules (save bob "7070")).2.load rules alice "App").result =
          (outdated.load rules alice "App").result ∧
        ((outdated.step rules (save bob "7070")).2.load rules alice "App").report =
          (outdated.load rules alice "App").report) ∧
      ((outdated.save rules alice "App" (app "9090")).service.save rules bob "App"
          (app "7070")).service.store =
        ((outdated.save rules bob "App" (app "7070")).service.save rules alice "App"
          (app "9090")).service.store := by
  obtain ⟨hload, hsave⟩ := @writes_isolated rules .empty 2
    [save global "80", save alice "8080", save global "81"] outdated rfl
  refine ⟨by decide, hload (save bob "7070") bob alice "App" rfl (by decide), ?_⟩
  exact (hsave alice bob "App" "App" (app "9090") (app "7070") none none _ _ _ _ (by decide)
    (by decide) rfl rfl rfl rfl).2.2

end Sample

end ScopedConfig
