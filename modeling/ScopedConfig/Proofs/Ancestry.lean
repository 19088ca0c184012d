import ScopedConfig.Proofs.Except
import ScopedConfig.Service

/-!
# Paths and the paths above them

What a path shares with its parent, and why the name of a scope tells apart the paths above one
path.
-/

namespace ScopedConfig

namespace Scope.Path

variable {p parent : Path}

@[ext]
theorem ext {a b : Path} (h : a.segments = b.segments) : a = b := by
  cases a
  cases b
  cases h
  rfl

/-! ## Parents -/

@[simp] theorem segments_upTo (p : Path) (n : Nat) :
    (p.upTo n).segments = p.segments.take (n + 1) := rfl

theorem upTo_eq_self {n : Nat} (h : p.segments.length ≤ n + 1) : p.upTo n = p := by
  ext1
  rw [segments_upTo, List.take_of_length_le h]

theorem parent?_eq_some (h : p.parent? = some parent) :
    ∃ n, p.segments.length = n + 2 ∧ parent = p.upTo n := by
  unfold parent? at h
  split at h
  case h_1 | h_2 => cases h
  case h_3 n hlen => exact ⟨n, hlen, (Option.some.inj h).symm⟩

theorem parent?_eq_none (h : p.parent? = none) : p.segments.length = 1 := by
  unfold parent? at h
  split at h
  case h_1 hlen => exact absurd (List.length_eq_zero_iff.1 hlen) p.segments_ne_nil
  case h_2 hlen => exact hlen
  case h_3 => cases h

theorem ancestry_of_parent (h : p.parent? = some parent) : p.ancestry = parent.ancestry ++ [p] := by
  obtain ⟨n, hlen, rfl⟩ := parent?_eq_some h
  have hlast : p.upTo (n + 1) = p := upTo_eq_self (by omega)
  have hparent : (p.upTo n).segments.length = n + 1 := by
    rw [segments_upTo, List.length_take]
    omega
  rw [ancestry, ancestry, hlen, hparent, List.range_succ, List.map_append,
    List.map_singleton, hlast]
  congr 1
  apply List.map_congr_left
  intro k hk
  rw [List.mem_range] at hk
  ext1
  rw [segments_upTo, segments_upTo, segments_upTo, List.take_take, Nat.min_eq_left (by omega)]

theorem ancestry_of_root (h : p.parent? = none) : p.ancestry = [p] := by
  have hlen := parent?_eq_none h
  have hself : p.upTo 0 = p := upTo_eq_self (by omega)
  rw [ancestry, hlen, List.range_one, List.map_singleton, hself]

theorem ne_of_mem_parent (h : p.parent? = some parent) {q : Path} (hq : q ∈ parent.ancestry) :
    q ≠ p := by
  obtain ⟨n, hlen, rfl⟩ := parent?_eq_some h
  obtain ⟨k, hk, rfl⟩ := List.mem_map.1 hq
  intro heq
  have := congrArg (fun a => a.segments.length) heq
  simp only [segments_upTo, List.length_take] at this
  omega

theorem mem_ancestry_self (p : Path) : p ∈ p.ancestry := by
  cases h : p.parent? with
  | none => simp [ancestry_of_root h]
  | some parent => simp [ancestry_of_parent h]

theorem className_of_parent (h : p.parent? = some parent) : parent.className = p.className := by
  obtain ⟨n, hlen, rfl⟩ := parent?_eq_some h
  simp [className, List.head_take]

/-! ## Names -/

theorem names_of_chain {seen : List String} {l : List Segment} (h : chainFault? seen l = none) :
    (l.map Segment.name).Nodup ∧ ∀ s ∈ l, s.name ∉ seen := by
  induction l generalizing seen with
  | nil => simp
  | cons s rest ih =>
    simp only [chainFault?, Option.or_eq_none_iff] at h
    split at h
    case isTrue => simp at h
    case isFalse hs =>
      obtain ⟨hnodup, hnew⟩ := ih h.2
      rw [List.map_cons, List.nodup_cons]
      refine ⟨⟨fun hmem => ?_, hnodup⟩, ?_⟩
      · obtain ⟨t, ht, hname⟩ := List.mem_map.1 hmem
        exact hnew t ht (by simp [hname])
      · intro t ht
        rcases List.mem_cons.1 ht with rfl | ht
        · simpa using hs
        · exact fun hmem => hnew t ht (List.mem_cons_of_mem _ hmem)

/-- Of the paths above a path, no two end in scopes of one name. -/
theorem eq_of_last_name {a b : Path} (ha : a ∈ p.ancestry) (hb : b ∈ p.ancestry)
    (h : a.last.name = b.last.name) : a = b := by
  have hnodup := (names_of_chain (Option.or_eq_none_iff.1 p.legal).2).1
  obtain ⟨i, hi, rfl⟩ := List.mem_map.1 ha
  obtain ⟨j, hj, rfl⟩ := List.mem_map.1 hb
  rw [List.mem_range] at hi hj
  have hlast {k : Nat} (hk : k < p.segments.length) : (p.upTo k).last = p.segments[k] := by
    simp only [last, segments_upTo]
    rw [List.getLast_take]
    simp [hk]
  rw [hlast hi, hlast hj] at h
  have hij : i = j := by
    rw [← List.getElem?_inj (by simpa using hi) hnodup]
    simp [hi, hj, h]
  rw [hij]

end Scope.Path

/-! ## Roots -/

namespace Scope.Registry

theorem validateFrom_take {r : Registry} {whole other : String} {next : Nat} {l : List Segment}
    (n : Nat) (h : r.validateFrom whole next l = .ok ()) :
    r.validateFrom other next (l.take n) = .ok () := by
  induction l generalizing next n with
  | nil => simp [validateFrom]
  | cons s rest ih =>
    cases n with
    | zero => rfl
    | succ n =>
      rw [List.take_succ_cons]
      unfold validateFrom at h ⊢
      cases hpos : r.position? s.name with
      | none => simp [hpos] at h
      | some i =>
        simp only [hpos] at h ⊢
        split at h
        case isTrue => cases h
        case isFalse hi =>
          rw [if_neg hi]
          split at h
          · cases h
          · exact ih n h

theorem validate_parent {r : Registry} {p parent : Path} (hp : p.parent? = some parent)
    (h : r.validate p = .ok ()) : r.validate parent = .ok () := by
  obtain ⟨n, hlen, rfl⟩ := Path.parent?_eq_some hp
  have hdomain : (p.upTo n).domain = p.domain.take (n - 1) := by
    simp only [Path.domain, Path.segments_upTo, List.drop_take]
    congr 1
  rw [validate, hdomain]
  exact validateFrom_take (n - 1) h

end Scope.Registry

namespace Rules

open Scope ScopedConfig.Except

theorem rootType_ok {rules : Rules} {p : Path} {typeName : String} {type : Schema.Record} :
    rules.rootType p typeName = .ok type ↔
      p.className = typeName ∧
      (∀ registry, rules.scopes = some registry → registry.validate p = .ok ()) ∧
      rules.schema.require typeName = .ok type := by
  by_cases hclass : p.className = typeName
  · cases hscopes : rules.scopes with
    | none => simp [rootType, hscopes, hclass]
    | some registry =>
      cases hvalid : registry.validate p with
      | error e => simp [rootType, hscopes, hclass, hvalid, mapError_error, bind, Except.bind]
      | ok u => simp [rootType, hscopes, hclass, hvalid, mapError_ok, bind, Except.bind]
  · cases hscopes : rules.scopes <;>
      simp [rootType, hscopes, hclass, bind, Except.bind, throw, throwThe]

theorem rootType_parent {rules : Rules} {p parent : Path} {typeName : String} {type : Schema.Record}
    (hp : p.parent? = some parent) (h : rules.rootType p typeName = .ok type) :
    rules.rootType parent typeName = .ok type := by
  obtain ⟨hclass, hvalid, htype⟩ := rootType_ok.1 h
  have hclass' := (Path.className_of_parent hp).trans hclass
  refine rootType_ok.2 ⟨hclass', fun registry hscopes => ?_, htype⟩
  exact Registry.validate_parent hp (hvalid registry hscopes)

end Rules

end ScopedConfig
