import ScopedConfig.Proofs.Direct
import ScopedConfig.Proofs.Except

/-!
# What a call changes

A call leaves the store as it is, stores one stamped snapshot, or removes snapshots.
-/

namespace ScopedConfig.Store

open Scope (Path)
open Schema (Record)
open ScopedConfig.Except

variable {rules : Rules} {st st' : Store}

/-! ## Saving -/

theorem saveWith_ok {path : Path} {typeName : String} {node stamped : Node} {loaded : Option Int}
    (h : st.saveWith rules path typeName node loaded = .ok (stamped, st')) :
    ∃ type previous above, rules.rootType path typeName = .ok type ∧ st.load path = .ok previous ∧
      st.ancestor rules type path = .ok above ∧
      stamped = Stamp.forSave rules.schema type previous node above path ∧
      ((loaded = none ∧ previous = some stamped) ∧ st' = st ∨
        Service.write st stamped previous loaded = .ok st') := by
  obtain ⟨type, htype, h⟩ := bind_eq_ok.1 h
  by_cases hkind : node.kind = .complex
  · simp only [hkind, ne_eq, not_true, if_false] at h
    obtain ⟨previous, hprevious, h⟩ := bind_eq_ok.1 h
    obtain ⟨above, habove, h⟩ := bind_eq_ok.1 h
    refine ⟨type, previous, above, htype, hprevious, habove, ?_⟩
    unfold commit at h
    split at h
    case isTrue hsame =>
      cases h
      rw [Bool.and_eq_true, Option.isNone_iff_eq_none, beq_iff_eq] at hsame
      exact ⟨rfl, .inl ⟨hsame, rfl⟩⟩
    case isFalse =>
      obtain ⟨written, hwrite, h⟩ := map_eq_ok.1 h
      cases h
      exact ⟨rfl, .inr hwrite⟩
  · rw [if_pos hkind] at h
    cases h

/-- A snapshot is stored, stamped against what the store holds at its path and above. -/
def Saves (rules : Rules) (st st' : Store) (node : Node) : Prop :=
  ∃ path type previous above, st.load path = .ok previous ∧
    st.ancestor rules type path = .ok above ∧
    Op st st' (· == path) (some (Stamp.forSave rules.schema type previous node above path))

theorem saveWith_saves {path : Path} {typeName : String} {node stamped : Node} {loaded : Option Int}
    (h : st.saveWith rules path typeName node loaded = .ok (stamped, st')) :
    st' = st ∨ st.Saves rules st' node := by
  obtain ⟨type, previous, above, -, hprevious, habove, rfl, ⟨-, hsame⟩ | hwrite⟩ := saveWith_ok h
  · exact .inl hsame
  · have hop := Service.write_op hwrite
    rw [Stamp.forSave, Stamp.definedAt_stamp] at hop
    exact .inr ⟨path, type, previous, above, hprevious, habove, hop⟩

/-- A save puts the stamped node at its path and leaves the other paths as they were. -/
theorem load_saved {path : Path} {typeName : String} {node stamped : Node} {loaded : Option Int}
    (hst : st.Keeps) (h : st.saveWith rules path typeName node loaded = .ok (stamped, st')) :
    st'.load path = .ok (some stamped) ∧ ∀ q, q ≠ path → st'.load q = st.load q := by
  obtain ⟨type, previous, above, -, hprevious, -, hstamped, ⟨⟨-, hsame⟩, rfl⟩ | hwrite⟩ :=
    saveWith_ok h
  · exact ⟨by rw [hprevious, hsame], fun q _ => rfl⟩
  · have hsets := (hst.sets (Service.write_op hwrite)).2
    have hplace : stamped.definedAt = path := by rw [hstamped, Stamp.forSave, Stamp.definedAt_stamp]
    rw [hplace] at hsets
    refine ⟨by simpa using hsets path, fun q hq => ?_⟩
    simpa [hq] using hsets q

/-! ## Calls -/

/-- The call leaves the store as it is, saves its node, or removes snapshots. -/
theorem step_change (rules : Rules) (st : Store) (call : Call) :
    (st.step rules call).2 = st ∨
      (∃ node, call.node? = some node ∧ st.Saves rules (st.step rules call).2 node) ∨
      ∃ condition, Op st (st.step rules call).2 condition none := by
  cases call with
  | load path typeName =>
    refine .inl ?_
    rw [step]
    cases st.resolve rules path typeName <;> rfl
  | save path typeName node =>
    rw [step]
    cases h : st.saveWith rules path typeName node none with
    | error e => exact .inl rfl
    | ok r => exact (saveWith_saves h).imp_right fun hsaves => .inl ⟨node, rfl, hsaves⟩
  | saveChecked path typeName node loaded =>
    rw [step]
    cases h : st.saveWith rules path typeName node (some loaded) with
    | error e => exact .inl rfl
    | ok r => exact (saveWith_saves h).imp_right fun hsaves => .inl ⟨node, rfl, hsaves⟩
  | delete path below =>
    rw [step]
    cases h : st.delete path below with
    | error e => exact .inl rfl
    | ok r => exact .inr (.inr ⟨_, .delete h⟩)
  | deleteMentioning name properties =>
    rw [step]
    cases h : st.deleteMentioning name properties with
    | error e => exact .inl rfl
    | ok r => exact .inr (.inr ⟨_, .deleteMentioning h⟩)
  | list | setCacheEnabled => exact .inl rfl

theorem step_keeps (call : Call) (hst : st.Keeps) : (st.step rules call).2.Keeps := by
  obtain hsame | ⟨node, -, path, type, previous, above, -, -, hop⟩ | ⟨condition, hop⟩ :=
    step_change rules st call
  · rw [hsame]
    exact hst
  · exact (hst.sets hop).1
  · exact (hst.sets hop).1

theorem saveWith_step {path : Path} {typeName : String} {node stamped : Node} {loaded : Option Int}
    (h : st.saveWith rules path typeName node loaded = .ok (stamped, st')) :
    ∃ call : Call, call.node? = some node ∧ (st.step rules call).2 = st' := by
  cases loaded with
  | none => exact ⟨.save path typeName node, rfl, by rw [step, h]; rfl⟩
  | some version => exact ⟨.saveChecked path typeName node version, rfl, by rw [step, h]; rfl⟩

theorem saveWith_keeps {path : Path} {typeName : String} {node stamped : Node} {loaded : Option Int}
    (hst : st.Keeps) (h : st.saveWith rules path typeName node loaded = .ok (stamped, st')) :
    st'.Keeps := by
  obtain ⟨call, -, rfl⟩ := saveWith_step h
  exact step_keeps call hst

theorem step_load (rules : Rules) (call : Call) (hst : st.Keeps) (path : Path) :
    (st.step rules call).2.load path = st.load path ∨
      (∃ type previous node above, call.node? = some node ∧ st.load path = .ok previous ∧
        (st.step rules call).2.load path =
          .ok (some (Stamp.forSave rules.schema type previous node above path))) ∨
      (st.step rules call).2.load path = .ok none := by
  obtain hsame | ⟨node, hnode, q, type, previous, above, hprevious, -, hop⟩ | ⟨condition, hop⟩ :=
    step_change rules st call
  · exact .inl (by rw [hsame])
  · have hload := (hst.sets hop).2 path
    by_cases hq : path = q
    · subst hq
      refine .inr (.inl ⟨type, previous, node, above, hnode, hprevious, ?_⟩)
      simpa using hload
    · exact .inl (by simpa [hq] using hload)
  · have hload := (hst.sets hop).2 path
    cases hc : condition path with
    | true => exact .inr (.inr (by simpa [hc] using hload))
    | false => exact .inl (by simpa [hc] using hload)

/-! ## Runs -/

theorem after_induction {motive : Store → Prop} {calls : List Call} (hst : st.Keeps)
    (hfirst : motive st)
    (hstep : ∀ {st : Store} {call : Call}, call ∈ calls → st.Keeps → motive st →
      motive (st.step rules call).2) :
    motive (st.after rules calls) := by
  induction calls generalizing st with
  | nil => exact hfirst
  | cons call rest ih =>
    apply ih (step_keeps call hst) (hstep List.mem_cons_self hst hfirst)
    intro st' call' hmem
    exact hstep (List.mem_cons_of_mem _ hmem)

theorem after_keeps (rules : Rules) (calls : List Call) (hst : st.Keeps) :
    (st.after rules calls).Keeps :=
  after_induction hst hst fun _ hst _ => step_keeps _ hst

end ScopedConfig.Store

namespace ScopedConfig.Service

variable {rules : Rules} {s : Service} {st : Store}

/-- A service answers and changes its store as the store alone does. -/
theorem run_spec (rules : Rules) (calls : List Call) (h : s.Over st) (hst : st.Keeps) :
    s.replies rules calls = st.replies rules calls ∧
      (s.after rules calls).Over (st.after rules calls) := by
  induction calls generalizing s st with
  | nil => exact ⟨rfl, h⟩
  | cons call rest ih =>
    obtain ⟨hreply, hover⟩ := step_spec rules call h hst
    obtain ⟨hreplies, hafter⟩ := ih hover (Store.step_keeps call hst)
    refine ⟨?_, hafter⟩
    rw [replies, Store.replies, hreply, hreplies]

end ScopedConfig.Service
