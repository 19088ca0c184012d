import ScopedConfig.Proofs.History
import ScopedConfig.Proofs.Levels

/-!
# Checked saves

A checked save goes by the version that its client loaded. It goes through only if the snapshot that
it replaces still has the content that was loaded, unless the snapshot was removed and stored again
in between: versions then start again at 1.
-/

namespace ScopedConfig

open Scope (Path)
open Merge (Totals)
open ScopedConfig.Except

/-! ## Versions that are loaded -/

namespace Store

variable {rules : Rules} {st st' : Store} {path : Path} {typeName : String}

theorem resolve_version {resolved : Option Resolved} {stale : Totals}
    (h : st.resolve rules path typeName = .ok (resolved, stale)) :
    st.HasVersion path ((resolved.map Resolved.storedVersion).getD 0) := by
  obtain ⟨type, levels, merged, -, hlevels, hmerged, rfl⟩ := resolve_ok.1 h
  obtain ⟨held, hheld, hlast⟩ := mapM_ancestry_last hlevels
  refine ⟨held, hheld, ?_⟩
  cases merged with
  | none =>
    have hnone := (Merge.levelsFrom_none hmerged).2 held (List.mem_of_getLast? hlast)
    simp [hnone]
  | some node => simp [hlast]

theorem saveWith_checked {node stamped : Node} {loaded : Int} (hst : st.Keeps)
    (h : st.saveWith rules path typeName node (some loaded) = .ok (stamped, st')) :
    st.HasVersion path loaded := by
  obtain ⟨type, previous, above, -, -, -, rfl, ⟨⟨hnone, -⟩, -⟩ | hwrite⟩ := saveWith_ok h
  · cases hnone
  · have hversion := hst.update hwrite
    rwa [Stamp.forSave, Stamp.definedAt_stamp] at hversion

/-! ## What one version says -/

theorem version_pos {loaded : Int} (hsound : st.Sound) (h : st.HasVersion path loaded) :
    st.stored? path = none ∧ loaded = 0 ∨
      ∃ n, st.stored? path = some n ∧ n.version = loaded ∧ 1 ≤ loaded := by
  obtain ⟨held, hheld, rfl⟩ := h
  cases held with
  | none => exact .inl ⟨by simp [stored?, hheld], rfl⟩
  | some n =>
    have hn : st.stored? path = some n := stored?_eq_some.2 hheld
    exact .inr ⟨n, hn, rfl, (hsound hn).version⟩

/-- Two moments with one version have one content, if the place was filled all the time between. -/
theorem content_of_version {calls : List Call} {loaded : Int} (hst : st.Keeps) (hsound : st.Sound)
    (hsound' : (st.after rules calls).Sound) (hbefore : st.HasVersion path loaded)
    (hafter : (st.after rules calls).HasVersion path loaded)
    (hheld : loaded = 0 ∨ ∀ m ∈ st.moments rules calls, (m.stored? path).isSome = true) :
    Option.Rel (fun a b => a.sameContent b = true) (st.stored? path)
      ((st.after rules calls).stored? path) := by
  rcases version_pos hsound hbefore with ⟨hnone, hzero⟩ | ⟨a, ha, hversion, hpos⟩
  · rcases version_pos hsound' hafter with ⟨hnone', -⟩ | ⟨b, -, -, hpos⟩
    · rw [hnone, hnone']
      exact .none
    · omega
  · rcases version_pos hsound' hafter with ⟨-, hzero⟩ | ⟨b, hb, hversion', -⟩
    · omega
    · have hheld := hheld.resolve_left (by omega)
      have hnewer : b.Supersedes a :=
        after_supersedes (fun st => st.stored? path) step_supersedes hst hheld ha hb
      rw [ha, hb]
      refine .some ?_
      rcases hnewer.content (hversion.trans hversion'.symm) with rfl | hcontent
      · exact Node.sameContent_refl (hsound ha).ordered
      · exact hcontent

end Store

/-! ## Services -/

/-- A checked save that goes through replaces the content that its client loaded, if the snapshot
was not removed in between. Whatever other clients do, no update of theirs is lost. -/
theorem saveChecked_content {rules : Rules} {capacity : Nat} {before between : List Call}
    {path : Path} {typeName typeName' : String} {node stamped : Node} {resolved : Option Resolved}
    {loaded : Int} {client later : Service}
    (hclient : (Service.start (.memory .empty) capacity).after rules before = client)
    (hlater : client.after rules (.load path typeName :: between) = later)
    (hordered : ∀ call ∈ before ++ between, call.isOrdered = true)
    (hload : (client.load rules path typeName).result = .ok resolved)
    (hloaded : (resolved.map Resolved.storedVersion).getD 0 = loaded)
    (hheld : loaded = 0 ∨
      ∀ m ∈ client.moments rules (.load path typeName :: between),
        (m.store.stored? path).isSome = true)
    (hsave : (later.saveChecked rules path typeName' node loaded).result = .ok stamped) :
    Option.Rel (fun a b => a.sameContent b = true) (client.store.stored? path)
      (later.store.stored? path) := by
  subst hclient hlater hloaded
  have hst := Store.keeps_memory .empty
  obtain ⟨-, hover⟩ := Service.run_spec rules before (Service.start_over _ capacity) hst
  have hst' := Store.after_keeps rules before hst
  obtain ⟨-, hoverLater⟩ := Service.run_spec rules (.load path typeName :: between) hover hst'
  have hsound : ((Store.memory .empty).after rules before).Sound :=
    Store.after_sound hst (Store.sound_of_empty fun _ => rfl) fun call hcall =>
      hordered call (List.mem_append_left _ hcall)
  have hsound' : (((Store.memory .empty).after rules before).after rules
      (.load path typeName :: between)).Sound := by
    apply Store.after_sound hst' hsound
    intro call hcall
    rcases List.mem_cons.1 hcall with rfl | hcall
    · rfl
    · exact hordered call (List.mem_append_right _ hcall)
  -- The client was told the stored version, and the save found the same version there.
  obtain ⟨stale, hresolve, -⟩ := Service.load_ok hover hload
  obtain ⟨st', hsaved, -⟩ := Service.saveWith_ok hoverLater (Store.after_keeps _ _ hst') hsave
  rw [hover.store, hoverLater.store]
  refine Store.content_of_version hst' hsound hsound' (Store.resolve_version hresolve)
    (Store.saveWith_checked (Store.after_keeps _ _ hst') hsaved) ?_
  exact hheld.imp_right fun hall => Service.forall_moments hover hst' hall

namespace Sample

def shared : Service := served [save global "80", .load global "App", save alice "8080"]

/-- Another user's update does not disturb a client that replaces the global snapshot. -/
theorem saveChecked_content_global :
    Option.Rel (fun a b => a.sameContent b = true)
      ((served [save global "80"]).store.stored? global) (shared.store.stored? global) := by
  have hlater :
      (served [save global "80"]).after rules [.load global "App", save alice "8080"] = shared := rfl
  have hload : ((served [save global "80"]).load rules global "App").result = .ok _ := rfl
  have hsave : (shared.saveChecked rules global "App" (app "81") 1).result = .ok _ := rfl
  exact saveChecked_content rfl hlater (by decide) hload rfl (.inr (by decide)) hsave

/-- A snapshot that is removed and stored again has the version that was loaded, and another
content. -/
theorem recreated_snapshot_is_replaced :
    ¬ ∀ (rules : Rules) (capacity : Nat) (before between : List Call) (path : Path)
        (typeName typeName' : String) (node stamped : Node) (resolved : Option Resolved)
        (client later : Service),
      (Service.start (.memory .empty) capacity).after rules before = client →
      client.after rules (.load path typeName :: between) = later →
      (∀ call ∈ before ++ between, call.isOrdered = true) →
      (client.load rules path typeName).result = .ok resolved →
      (later.saveChecked rules path typeName' node
        ((resolved.map Resolved.storedVersion).getD 0)).result = .ok stamped →
      Option.Rel (fun a b => a.sameContent b = true) (client.store.stored? path)
        (later.store.stored? path) := by
  intro h
  have hrel := h rules 2 [save global "80"] [.delete global false, save global "81"] global
    "App" "App" (app "82") _ _ _ _ rfl rfl (by decide) rfl rfl
  change Option.Rel _ (some _) (some _) at hrel
  cases hrel with
  | some hcontent => exact absurd hcontent (by decide)

end Sample

end ScopedConfig
