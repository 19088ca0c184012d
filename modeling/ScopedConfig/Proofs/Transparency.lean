import ScopedConfig.Proofs.Change

/-!
# The cache cannot be observed

Whatever a cache holds and whenever it is turned on or off, the answers, what observers are told and
what ends up in the store are the same. Every cached snapshot is the one that is stored.
-/

namespace ScopedConfig

/-! ## Switches of the cache -/

namespace Store

theorem step_switch (rules : Rules) (st : Store) {call : Call} (h : call.isSwitch = true) :
    st.step rules call = (none, st) := by
  cases call <;> simp [Call.isSwitch] at h
  rfl

theorem run_filter (rules : Rules) (st : Store) (calls : List Call) :
    st.replies rules (calls.filter fun c => !c.isSwitch) = st.replies rules calls ∧
      st.after rules (calls.filter fun c => !c.isSwitch) = st.after rules calls := by
  induction calls generalizing st with
  | nil => exact ⟨rfl, rfl⟩
  | cons call rest ih =>
    cases hswitch : call.isSwitch with
    | true =>
      have hstep := step_switch rules st hswitch
      rw [List.filter_cons_of_neg (by simp [hswitch]), replies, after, hstep]
      exact ih st
    | false =>
      rw [List.filter_cons_of_pos (by simp [hswitch]), replies, replies, after, after]
      obtain ⟨hreplies, hafter⟩ := ih (st.step rules call).2
      exact ⟨by rw [hreplies], hafter⟩

end Store

/-! ## Services -/

namespace Service

/-- Runs of the same calls, with switches of the cache anywhere in between and caches of any size,
give the same answers and the same store. What is cached at the end is what is stored. -/
theorem cache_transparent (rules : Rules) (m : Store.Memory) (capacity₁ capacity₂ : Nat)
    {calls₁ calls₂ : List Call}
    (h : (calls₁.filter fun c => !c.isSwitch) = calls₂.filter fun c => !c.isSwitch) :
    (start (.memory m) capacity₁).replies rules calls₁ =
        (start (.memory m) capacity₂).replies rules calls₂ ∧
      ((start (.memory m) capacity₁).after rules calls₁).store =
        ((start (.memory m) capacity₂).after rules calls₂).store ∧
      ∀ e ∈ ((start (.memory m) capacity₁).after rules calls₁).cache.entries,
        ((start (.memory m) capacity₁).after rules calls₁).store.load e.1 = .ok (some e.2) := by
  have hst := Store.keeps_memory m
  obtain ⟨hreplies₁, hover₁⟩ := run_spec rules calls₁ (start_over (.memory m) capacity₁) hst
  obtain ⟨hreplies₂, hover₂⟩ := run_spec rules calls₂ (start_over (.memory m) capacity₂) hst
  obtain ⟨hanswers₁, hafter₁⟩ := Store.run_filter rules (.memory m) calls₁
  obtain ⟨hanswers₂, hafter₂⟩ := Store.run_filter rules (.memory m) calls₂
  refine ⟨?_, ?_, ?_⟩
  · rw [hreplies₁, hreplies₂, ← hanswers₁, ← hanswers₂, h]
  · rw [hover₁.store, hover₂.store, ← hafter₁, ← hafter₂, h]
  · rw [hover₁.store]
    exact hover₁.cache.stored

end Service

namespace Sample

/-- A small cache that is turned off and on again in the middle. -/
theorem switches_not_observed :
    (Service.start (.memory .empty) 1).replies rules
        [save global "80", save alice "8080", .setCacheEnabled false, .delete global false,
          save global "81", .setCacheEnabled true, .load alice "App"] =
      (Service.start (.memory .empty) 200).replies rules
        [save global "80", save alice "8080", .delete global false, save global "81",
          .load alice "App"] :=
  (Service.cache_transparent rules .empty 1 200 (by decide)).1

end Sample

end ScopedConfig
