import ScopedConfig.Cache
import ScopedConfig.Proofs.Store

/-!
# Caches that mirror a store

Every snapshot in such a cache is the one that the store holds at its path. What each operation on
the cache needs from the store to leave it so.
-/

namespace ScopedConfig.Cache

open Scope (Path)
open Store (Sets)

/-- What is cached is stored, and a disabled cache is empty. -/
structure Mirrors (c : Cache) (st : Store) : Prop where
  stored : ∀ e ∈ c.entries, st.load e.1 = .ok (some e.2)
  disabled : c.enabled = false → c.entries = []

theorem mem_without {path : Path} {entries : List (Path × Node)} {e : Path × Node} :
    e ∈ without path entries ↔ e ∈ entries ∧ e.1 ≠ path := by
  simp [without]

variable {c : Cache} {st st' : Store} {path : Path} {node : Node}

theorem mirrors_empty (capacity : Nat) (st : Store) : (empty capacity).Mirrors st := by
  constructor <;> simp [empty]

/-- A hit is what the store holds. -/
theorem Mirrors.get (h : c.Mirrors st) (path : Path) :
    (∀ node, (c.get path).1 = some node → st.load path = .ok (some node)) ∧
      (c.get path).2.Mirrors st := by
  unfold Cache.get
  cases henabled : c.enabled with
  | false => exact ⟨by simp, h⟩
  | true =>
    cases hlookup : c.entries.lookup path with
    | none => exact ⟨by simp, h.stored, by simp⟩
    | some found =>
      have hfound := h.stored (path, found) (Keyed.mem_of_lookup hlookup)
      refine ⟨?_, ?_, by simp⟩
      · rintro node ⟨⟩
        exact hfound
      · intro e he
        rcases List.mem_append.1 he with he | he
        · exact h.stored e (mem_without.1 he).1
        · obtain rfl := List.mem_singleton.1 he
          exact hfound

theorem mirrors_put (hothers : ∀ e ∈ c.entries, e.1 ≠ path → st.load e.1 = .ok (some e.2))
    (hdisabled : c.enabled = false → c.entries = []) (hnode : st.load path = .ok (some node)) :
    (c.put path node).Mirrors st := by
  unfold put
  cases henabled : c.enabled with
  | false => exact ⟨by simp [hdisabled henabled], hdisabled⟩
  | true =>
    refine ⟨fun e he => ?_, by simp⟩
    rcases List.mem_append.1 (List.mem_of_mem_drop he) with he | he
    · exact hothers e (mem_without.1 he).1 (mem_without.1 he).2
    · obtain rfl := List.mem_singleton.1 he
      exact hnode

theorem Mirrors.put (h : c.Mirrors st) (hnode : st.load path = .ok (some node)) :
    (c.put path node).Mirrors st :=
  mirrors_put (fun e he _ => h.stored e he) h.disabled hnode

theorem Mirrors.put_written (h : c.Mirrors st) (hsets : st.Sets st' (· == path) (some node)) :
    (c.put path node).Mirrors st' := by
  refine mirrors_put (fun e he hne => ?_) h.disabled ?_
  · have hkept := hsets e.1
    rw [if_neg (by simpa using hne)] at hkept
    rw [hkept, h.stored e he]
  · simpa using hsets path

theorem Mirrors.removed {kept : Cache} {condition : Path → Bool} (h : c.Mirrors st)
    (hsets : st.Sets st' condition none) (henabled : kept.enabled = c.enabled)
    (hkept : ∀ e ∈ kept.entries, e ∈ c.entries ∧ condition e.1 = false) : kept.Mirrors st' := by
  -- An entry that is left was not removed, so the store still holds it.
  constructor
  · intro e he
    obtain ⟨hmem, hcondition⟩ := hkept e he
    have hsame := hsets e.1
    rw [hcondition] at hsame
    exact hsame.trans (h.stored e hmem)
  · intro hdisabled
    rw [henabled] at hdisabled
    apply List.eq_nil_iff_forall_not_mem.2
    intro e he
    have hmem := (hkept e he).1
    simp [h.disabled hdisabled] at hmem

theorem Mirrors.remove_deleted (h : c.Mirrors st) (hsets : st.Sets st' (· == path) none) :
    (c.remove path).2.Mirrors st' := by
  refine h.removed hsets rfl fun e he => ?_
  obtain ⟨hmem, hne⟩ := mem_without.1 he
  exact ⟨hmem, by simpa using hne⟩

theorem Mirrors.removeBelow_deleted (h : c.Mirrors st)
    (hsets : st.Sets st' (fun q => q.extends? path) none) : (c.removeBelow path).2.Mirrors st' := by
  refine h.removed hsets rfl fun e he => ?_
  obtain ⟨hmem, hkept⟩ := List.mem_filter.1 he
  exact ⟨hmem, by simpa using hkept⟩

theorem Mirrors.remove (h : c.Mirrors st) : (c.remove path).2.Mirrors st := by
  have hsets : st.Sets st (fun _ => false) none := fun _ => rfl
  refine h.removed hsets rfl fun e he => ?_
  exact ⟨(mem_without.1 he).1, rfl⟩

theorem mirrors_clear (c : Cache) (st : Store) : c.clear.Mirrors st := by
  constructor <;> simp [clear]

theorem Mirrors.setEnabled (h : c.Mirrors st) (enabled : Bool) :
    (c.setEnabled enabled).Mirrors st := by
  cases enabled with
  | false => constructor <;> simp [Cache.setEnabled]
  | true => exact ⟨by simpa [Cache.setEnabled] using h.stored, by simp [Cache.setEnabled]⟩

end ScopedConfig.Cache
