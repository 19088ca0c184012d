import ScopedConfig.Proofs.Change
import ScopedConfig.Proofs.Content

/-!
# Versions over a run

While a place in the store stays filled, its version never goes back, and it goes forward whenever
the content changes. So the same version means the same content.
-/

namespace ScopedConfig

open Scope (Path)

/-! ## Later nodes -/

namespace Node

/-- The node has a later version, or the same version and the same content. -/
def Supersedes (b a : Node) : Prop :=
  a.version < b.version ∨ a.version = b.version ∧ (a = b ∨ a.sameContent b = true)

theorem Supersedes.refl (a : Node) : a.Supersedes a := .inr ⟨rfl, .inl rfl⟩

theorem Supersedes.trans {a b c : Node} (hab : b.Supersedes a) (hbc : c.Supersedes b) :
    c.Supersedes a := by
  unfold Supersedes at *
  rcases hab with hab | ⟨hab, hcontent⟩
  · left
    omega
  rcases hbc with hbc | ⟨hbc, hcontent'⟩
  · left
    omega
  refine .inr ⟨hab.trans hbc, ?_⟩
  rcases hcontent with rfl | hcontent
  · exact hcontent'
  rcases hcontent' with rfl | hcontent'
  · exact .inr hcontent
  · exact .inr (sameContent_trans hcontent hcontent')

theorem Supersedes.content {a b : Node} (h : b.Supersedes a) (hversion : a.version = b.version) :
    a = b ∨ a.sameContent b = true := by
  rcases h with h | h
  · omega
  · exact h.2

end Node

theorem Stamp.stamp_supersedes (s : Schema) (target : Path) (role : Role) (a n : Node)
    (ancestor : Option Node) : (stamp s target role (some a) ancestor n).Supersedes a := by
  unfold Node.Supersedes
  rw [version_stamp, versionAfter, sameContent_stamp]
  cases h : a.sameContent n with
  | true => exact .inr ⟨by simp, .inr rfl⟩
  | false =>
    left
    simp only [Bool.false_eq_true, if_false]
    omega

/-! ## Places in a store -/

namespace Store

variable {rules : Rules} {st : Store}

/-- The snapshot at a path, if it is there and can be read. -/
def stored? (st : Store) (path : Path) : Option Node :=
  match st.load path with
  | .ok held => held
  | .error _ => none

theorem stored?_eq_some {path : Path} {n : Node} :
    st.stored? path = some n ↔ st.load path = .ok (some n) := by
  unfold stored?
  cases st.load path <;> simp

def property? (st : Store) (path : Path) (name : String) : Option Node :=
  (st.stored? path).bind fun n => n.property? name

def moments (rules : Rules) : Store → List Call → List Store
  | st, [] => [st]
  | st, call :: rest => st :: moments rules (st.step rules call).2 rest

theorem step_stored {call : Call} {path : Path} {old new : Node} (hst : st.Keeps)
    (hold : st.stored? path = some old) (hnew : (st.step rules call).2.stored? path = some new) :
    new = old ∨ ∃ type node above, call.node? = some node ∧
      new = Stamp.forSave rules.schema type (some old) node above path := by
  rw [stored?_eq_some] at hold hnew
  obtain hsame | ⟨type, previous, node, above, hnode, hprevious, hload⟩ | hgone :=
    step_load rules call hst path
  · rw [hsame, hold] at hnew
    cases hnew
    exact .inl rfl
  · rw [hold] at hprevious
    cases hprevious
    rw [hload] at hnew
    cases hnew
    exact .inr ⟨type, node, above, hnode, rfl⟩
  · rw [hgone] at hnew
    cases hnew

theorem step_supersedes {call : Call} {path : Path} {old new : Node} (hst : st.Keeps)
    (hold : st.stored? path = some old) (hnew : (st.step rules call).2.stored? path = some new) :
    new.Supersedes old := by
  obtain rfl | ⟨type, node, above, -, rfl⟩ := step_stored hst hold hnew
  · exact .refl _
  · exact Stamp.stamp_supersedes _ _ _ _ _ _

theorem step_property_supersedes {call : Call} {path : Path} {name : String} {old new : Node}
    (hst : st.Keeps) (hold : st.property? path name = some old)
    (hnew : (st.step rules call).2.property? path name = some new) : new.Supersedes old := by
  obtain ⟨before, hbefore, hold⟩ := Option.bind_eq_some_iff.1 hold
  obtain ⟨after, hafter, hnew⟩ := Option.bind_eq_some_iff.1 hnew
  obtain rfl | ⟨type, node, above, -, rfl⟩ := step_stored hst hbefore hafter
  · rw [hold] at hnew
    cases hnew
    exact .refl _
  · rw [Stamp.forSave, Stamp.property?_stamp] at hnew
    obtain ⟨child, -, rfl⟩ := Option.map_eq_some_iff.1 hnew
    rw [Option.bind_some, hold]
    exact Stamp.stamp_supersedes _ _ _ _ _ _

/-- What every call preserves at a place that it leaves filled, a run preserves at a place that is
never empty. -/
theorem after_supersedes (view : Store → Option Node) {calls : List Call} {old new : Node}
    (hstep : ∀ {st : Store} {call : Call} {a b : Node}, st.Keeps → view st = some a →
      view (st.step rules call).2 = some b → b.Supersedes a)
    (hst : st.Keeps) (hheld : ∀ m ∈ st.moments rules calls, (view m).isSome = true)
    (hold : view st = some old) (hnew : view (st.after rules calls) = some new) :
    new.Supersedes old := by
  induction calls generalizing st old with
  | nil =>
    rw [after, hold] at hnew
    cases hnew
    exact .refl _
  | cons call rest ih =>
    have hrest : ∀ m ∈ (st.step rules call).2.moments rules rest, (view m).isSome = true :=
      fun m hm => hheld m (List.mem_cons_of_mem _ hm)
    have hfirst : (view (st.step rules call).2).isSome = true := by
      refine hrest _ ?_
      cases rest <;> simp [moments]
    obtain ⟨next, hnext⟩ := Option.isSome_iff_exists.1 hfirst
    exact (hstep hst hold hnext).trans (ih (step_keeps call hst) hrest hnext hnew)

end Store

/-! ## Snapshots that a service stored -/

/-- The keys are in order, the version counts from 1, and the properties are defined where the
snapshot is. -/
structure Node.StoredAt (path : Path) (n : Node) : Prop where
  ordered : n.isOrdered = true
  version : 1 ≤ n.version
  place : ∀ {name : String} {child : Node}, n.property? name = some child → child.definedAt = path

namespace Store

variable {rules : Rules} {st : Store}

/-- Every snapshot that can be read was stored by a service. -/
def Sound (st : Store) : Prop :=
  ∀ {path : Path} {n : Node}, st.stored? path = some n → n.StoredAt path

theorem forSave_storedAt {s : Schema} {type : Schema.Record} {previous above : Option Node}
    {node : Node} {path : Path} (hprevious : ∀ {n : Node}, previous = some n → n.StoredAt path)
    (hnode : node.isOrdered = true) :
    (Stamp.forSave s type previous node above path).StoredAt path where
  ordered := by
    rw [Stamp.forSave, Stamp.isOrdered_stamp]
    exact hnode
  version := by
    rw [Stamp.forSave, Stamp.version_stamp]
    cases previous with
    | none => simp [Stamp.versionAfter]
    | some n =>
      have hversion := (hprevious rfl).version
      rw [Stamp.versionAfter]
      split <;> omega
  place := by
    intro name child hchild
    rw [Stamp.forSave, Stamp.property?_stamp] at hchild
    obtain ⟨given, -, rfl⟩ := Option.map_eq_some_iff.1 hchild
    exact Stamp.definedAt_stamp ..

theorem step_sound {call : Call} (hst : st.Keeps) (hsound : st.Sound)
    (hordered : call.isOrdered = true) : (st.step rules call).2.Sound := by
  intro path n hn
  rw [stored?_eq_some] at hn
  obtain hsame | ⟨type, previous, node, above, hnode, hprevious, hload⟩ | hgone :=
    step_load rules call hst path
  · rw [hsame] at hn
    exact hsound (stored?_eq_some.2 hn)
  · rw [hload] at hn
    cases hn
    refine forSave_storedAt (fun h => hsound (stored?_eq_some.2 (h ▸ hprevious))) ?_
    simpa [Call.isOrdered, hnode] using hordered
  · rw [hgone] at hn
    cases hn

theorem sound_of_empty (hempty : ∀ path, st.load path = .ok none) : st.Sound := by
  intro path n hn
  rw [stored?_eq_some, hempty] at hn
  cases hn

theorem after_sound {calls : List Call} (hst : st.Keeps) (hsound : st.Sound)
    (hordered : ∀ call ∈ calls, call.isOrdered = true) : (st.after rules calls).Sound :=
  after_induction hst (motive := Sound) hsound fun hmem hst hsound =>
    step_sound hst hsound (hordered _ hmem)

end Store

/-! ## Moments of a service -/

namespace Service

variable {rules : Rules} {s : Service} {st : Store}

theorem moments_spec (calls : List Call) (h : s.Over st) (hst : st.Keeps) :
    (s.moments rules calls).map Service.store = st.moments rules calls := by
  induction calls generalizing s st with
  | nil => simp [moments, Store.moments, h.store]
  | cons call rest ih =>
    obtain ⟨-, hover⟩ := step_spec rules call h hst
    rw [moments, Store.moments, List.map_cons, h.store, ih hover (Store.step_keeps call hst)]

theorem forall_moments {calls : List Call} {motive : Store → Prop} (h : s.Over st) (hst : st.Keeps)
    (hall : ∀ m ∈ s.moments rules calls, motive m.store) :
    ∀ m ∈ st.moments rules calls, motive m := by
  intro m hm
  rw [← moments_spec calls h hst] at hm
  obtain ⟨service, hservice, rfl⟩ := List.mem_map.1 hm
  exact hall service hservice

end Service

end ScopedConfig
