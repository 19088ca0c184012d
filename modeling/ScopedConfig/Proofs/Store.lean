import Mathlib.Data.List.Basic
import ScopedConfig.Proofs.Except
import ScopedConfig.Proofs.Keyed
import ScopedConfig.Store

/-!
# What a store promises

A write or a removal changes what is stored at some paths and nothing else. A store keeps this
promise when it holds of every operation on it, now and after any others. Stores in memory do.
-/

namespace ScopedConfig.Store

open Scope (Path)
open ScopedConfig.Except

variable {st st' : Store}

/-- One operation that went well, the paths that it is about, and what it puts there. -/
inductive Op : Store → Store → (Path → Bool) → Option Node → Prop where
  | save {st st' : Store} {node : Node} (h : st.save node = .ok st') :
    Op st st' (· == node.definedAt) (some node)
  | update {st st' : Store} {node : Node} {loaded : Int} (h : st.update node loaded = .ok st') :
    Op st st' (· == node.definedAt) (some node)
  | delete {st st' : Store} {path : Path} {below : Bool} {count : Nat}
    (h : st.delete path below = .ok (count, st')) :
    Op st st' (fun q => if below then q.extends? path else q == path) none
  | deleteMentioning {st st' : Store} {name : String} {properties : List (String × String)}
    {count : Nat} (h : st.deleteMentioning name properties = .ok (count, st')) :
    Op st st' (fun q => q.mentions name properties) none

/-- The paths that satisfy the condition hold `held` afterwards, and the others what they held
before. -/
def Sets (before after : Store) (condition : Path → Bool) (held : Option Node) : Prop :=
  ∀ path, after.load path = if condition path then .ok held else before.load path

/-- The stored version is `loaded`, which is 0 where nothing is stored. -/
def HasVersion (st : Store) (path : Path) (loaded : Int) : Prop :=
  ∃ stored, st.load path = .ok stored ∧ (stored.map Node.version).getD 0 = loaded

/-- The stores of a family keep the promise and stay in the family. -/
structure Lawful (family : Store → Prop) : Prop where
  sets : ∀ {st st' : Store} {condition : Path → Bool} {held : Option Node}, family st →
    Op st st' condition held → family st' ∧ st.Sets st' condition held
  /-- A checked write goes through only if the stored version is the one that was loaded. -/
  update : ∀ {st st' : Store} {node : Node} {loaded : Int}, family st →
    st.update node loaded = .ok st' → st.HasVersion node.definedAt loaded

/-- The store keeps the promise now and after any operations. -/
def Keeps (st : Store) : Prop := ∃ family, Lawful family ∧ family st

theorem Keeps.sets {condition : Path → Bool} {held : Option Node} (hst : st.Keeps)
    (h : Op st st' condition held) : st'.Keeps ∧ st.Sets st' condition held := by
  obtain ⟨family, hlawful, hfamily⟩ := hst
  obtain ⟨hfamily', hsets⟩ := hlawful.sets hfamily h
  exact ⟨⟨family, hlawful, hfamily'⟩, hsets⟩

theorem Keeps.update {node : Node} {loaded : Int} (hst : st.Keeps)
    (h : st.update node loaded = .ok st') : st.HasVersion node.definedAt loaded := by
  obtain ⟨family, hlawful, hfamily⟩ := hst
  exact hlawful.update hfamily h

/-! ## Stores in memory -/

namespace Memory

theorem load_save (m : Memory) (node : Node) (path : Path) :
    (m.save node).load path = if path == node.definedAt then some node else m.load path :=
  Keyed.lookup_insert node.definedAt path node m.entries

theorem load_removeWhere (m : Memory) (condition : Path → Bool) (path : Path) :
    (m.removeWhere condition).2.load path = if condition path then none else m.load path := by
  rw [load, removeWhere, Keyed.lookup_filter (fun q => !condition q), ← load]
  cases condition path <;> rfl

theorem count_removeWhere (m : Memory) (condition : Path → Bool) :
    (m.removeWhere condition).1 = (m.entries.filter fun e => condition e.1).length := by
  have hparts := List.length_eq_length_filter_add (l := m.entries) fun e => condition e.1
  simp only [removeWhere]
  omega

theorem update_ok {m m' : Memory} {node : Node} {loaded : Int} (h : m.update node loaded = .ok m') :
    m' = m.save node ∧ ((m.load node.definedAt).map Node.version).getD 0 = loaded := by
  obtain ⟨_, hcheck, h⟩ := bind_eq_ok.1 h
  refine ⟨(pure_eq_ok.1 h).symm, ?_⟩
  by_cases hv : ((m.load node.definedAt).map Node.version).getD 0 = loaded
  · exact hv
  · simp [checkVersion, hv] at hcheck

end Memory

theorem sets_save (m : Memory) (node : Node) :
    (memory m).Sets (memory (m.save node)) (· == node.definedAt) (some node) := by
  intro path
  rw [Store.load, Memory.load_save]
  by_cases h : path == node.definedAt <;> simp [h, Store.load]

theorem sets_removeWhere (m : Memory) (condition : Path → Bool) :
    (memory m).Sets (memory (m.removeWhere condition).2) condition none := by
  intro path
  rw [Store.load, Memory.load_removeWhere]
  by_cases h : condition path <;> simp [h, Store.load]

theorem lawful_memory : Lawful fun st => ∃ m, st = memory m where
  sets := by
    rintro _ st' condition held ⟨m, rfl⟩ h
    cases h with
    | save h =>
      cases h
      exact ⟨⟨_, rfl⟩, sets_save m _⟩
    | update h =>
      obtain ⟨m', hm', rfl⟩ := map_eq_ok.1 h
      obtain ⟨rfl, -⟩ := Memory.update_ok hm'
      exact ⟨⟨_, rfl⟩, sets_save m _⟩
    | @delete path below count h =>
      cases h
      exact ⟨⟨_, rfl⟩, sets_removeWhere m fun q => if below then q.extends? path else q == path⟩
    | @deleteMentioning name properties count h =>
      cases h
      exact ⟨⟨_, rfl⟩, sets_removeWhere m fun q => q.mentions name properties⟩
  update := by
    rintro _ st' node loaded ⟨m, rfl⟩ h
    obtain ⟨m', hm', -⟩ := map_eq_ok.1 h
    exact ⟨m.load node.definedAt, rfl, (Memory.update_ok hm').2⟩

theorem keeps_memory (m : Memory) : (memory m).Keeps :=
  ⟨_, lawful_memory, m, rfl⟩

end ScopedConfig.Store
