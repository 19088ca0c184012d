import ScopedConfig.Proofs.Isolation
import ScopedConfig.Proofs.SegmentGrammar
import ScopedConfig.Reference

/-!
# The shape of paths

Which chains of segments are paths, and how a path is taken apart. Parents and prefixes are cut off
without a check, so the shape of a chain has to pass to its beginnings.
-/

namespace ScopedConfig.Scope

/-! ## Well-formed chains -/

/-- A class scope that names its class, then the default scope, then any others. All texts are
tokens, and no name comes twice. -/
structure WellFormed (l : List Segment) : Prop where
  classScope : ∃ first ∈ l.head?, first.name = "class" ∧ (first.property? "name").isSome = true
  defaultScope : ∀ second ∈ l[1]?, second.name = "default"
  tokens : ∀ s ∈ l, IsToken s.name ∧ ∀ e ∈ s.properties, IsToken e.1 ∧ IsToken e.2
  distinct : (l.map Segment.name).Nodup

variable {l : List Segment}

theorem headFault?_eq_none :
    headFault? l = none ↔
      (∃ first ∈ l.head?, first.name = "class" ∧ (first.property? "name").isSome = true) ∧
        ∀ second ∈ l[1]?, second.name = "default" := by
  cases l with
  | nil => simp [headFault?]
  | cons first rest =>
    by_cases hclass : first.name = "class"
    · cases hname : first.property? "name" with
      | none => simp [headFault?, hclass, hname]
      | some className => cases rest <;> simp [headFault?, hclass, hname]
    · simp [headFault?, hclass]

theorem chainFault?_eq_none {seen : List String} :
    chainFault? seen l = none ↔
      (∀ s ∈ l, s.fault? = none) ∧ (l.map Segment.name).Nodup ∧ ∀ s ∈ l, s.name ∉ seen := by
  refine ⟨fun h => ⟨fault?_of_chain h, Path.names_of_chain h⟩, ?_⟩
  rintro ⟨hlegal, hnodup, hnew⟩
  induction l generalizing seen with
  | nil => rfl
  | cons s rest ih =>
    rw [List.forall_mem_cons] at hlegal hnew
    obtain ⟨hfirst, hrest⟩ := List.nodup_cons.1 hnodup
    have hafter : ∀ t ∈ rest, t.name ∉ s.name :: seen := by
      intro t ht hmem
      rcases List.mem_cons.1 hmem with hname | hmem
      · exact hfirst (hname ▸ List.mem_map_of_mem ht)
      · exact hnew.2 t ht hmem
    have hseen : seen.contains s.name = false := by simpa using hnew.1
    rw [chainFault?, hlegal.1, Option.none_or, hseen]
    exact ih hlegal.2 hrest hafter

theorem pathFault?_eq_none : pathFault? l = none ↔ WellFormed l := by
  rw [pathFault?, Option.or_eq_none_iff, headFault?_eq_none, chainFault?_eq_none]
  simp only [Segment.fault?_iff_tokens]
  constructor
  · rintro ⟨⟨hclass, hdefault⟩, htokens, hdistinct, -⟩
    exact ⟨hclass, hdefault, htokens, hdistinct⟩
  · rintro ⟨hclass, hdefault, htokens, hdistinct⟩
    exact ⟨⟨hclass, hdefault⟩, htokens, hdistinct, by simp⟩

namespace WellFormed

theorem take (h : WellFormed l) (n : Nat) : WellFormed (l.take (n + 1)) :=
  pathFault?_eq_none.1 (pathFault?_take (n + 1) (by omega) (pathFault?_eq_none.2 h))

theorem dropLast (h : WellFormed l) (hlen : 2 ≤ l.length) : WellFormed l.dropLast := by
  have hcut : l.dropLast = l.take (l.length - 2 + 1) := by
    rw [List.dropLast_eq_take]
    congr 1
    omega
  rw [hcut]
  exact h.take _

theorem structural_iff (h : WellFormed l) (hne : l ≠ []) :
    (l.getLast hne).isStructural = true ↔ l.drop 2 = [] := by
  obtain ⟨first, hfirst, hclass, -⟩ := h.classScope
  match l, hfirst with
  | [_], rfl => simp [Segment.isStructural, hclass]
  | [_, second], _ => simp [Segment.isStructural, h.defaultScope second rfl]
  | _ :: second :: third :: rest, rfl =>
    have hdefault := h.defaultScope second rfl
    have hmem : (third :: rest).getLast (by simp) ∈ third :: rest := List.getLast_mem _
    have hnames := List.mem_map_of_mem (f := Segment.name) hmem
    obtain ⟨hnotFirst, hnodup⟩ := List.nodup_cons.1 h.distinct
    obtain ⟨hnotSecond, -⟩ := List.nodup_cons.1 hnodup
    have hneClass : ((third :: rest).getLast (by simp)).name ≠ "class" := fun he =>
      hnotFirst (List.mem_cons_of_mem _ (by rwa [hclass, ← he]))
    have hneDefault : ((third :: rest).getLast (by simp)).name ≠ "default" := fun he =>
      hnotSecond (by rwa [hdefault, ← he])
    simp [Segment.isStructural, hneClass, hneDefault]

end WellFormed

/-! ## Chains that are built -/

/-- The segments of the paths that the operations yield, one after the other. A parent and a prefix
are cut off as they are. -/
inductive Built : List Segment → Prop where
  | create {segments : List Segment} {p : Path} (h : Path.create segments = .ok p) :
    Built p.segments
  | forClass {className : String} {p : Path} (h : Path.forClass className = .ok p) :
    Built p.segments
  | append {base p : Path} {s : Segment} (hbase : Built base.segments) (h : base.append s = .ok p) :
    Built p.segments
  | parent {l : List Segment} (h : Built l) (hlen : 2 ≤ l.length) : Built l.dropLast
  | front {l : List Segment} (h : Built l) (n : Nat) : Built (l.take (n + 1))
  | parse {whole : String} {p : Path} (h : Path.parse whole = .ok p) : Built p.segments
  | ofType {r : Schema.Record} {p : Path} (h : r.defaultPath = .ok p) : Built p.segments
  | ofRegistry {r : Registry} {className : String} {segments : List Segment} {p : Path}
    (h : r.pathFor className segments = .ok p) : Built p.segments
  | ofReference {s : Schema} {reference : Schema.Reference} {p : Path}
    (h : Reference.resolve s reference = .ok p) : Built p.segments

theorem Path.wellFormed (p : Path) : WellFormed p.segments := pathFault?_eq_none.1 p.legal

theorem Built.wellFormed (h : Built l) : WellFormed l := by
  induction h with
  | parent _ hlen ih => exact ih.dropLast hlen
  | front _ n ih => exact ih.take n
  | _ => exact Path.wellFormed _

namespace Path

variable {p q : Path} {s : Segment}

theorem create_ok_iff : (∃ p, create l = .ok p) ↔ WellFormed l := by
  constructor
  · rintro ⟨p, h⟩
    rw [create_eq_ok.1 h]
    exact p.wellFormed
  · intro h
    exact ⟨⟨l, pathFault?_eq_none.2 h⟩, create_eq_ok.2 rfl⟩

/-! ## Paths taken apart -/

theorem append_eq_ok : q.append s = .ok p ↔ p.segments = q.segments ++ [s] := by
  rw [append, create_eq_ok, eq_comm]

theorem parent?_eq_some_iff :
    p.parent? = some q ↔ 2 ≤ p.segments.length ∧ q.segments = p.segments.dropLast := by
  constructor
  · intro h
    obtain ⟨n, hlen, rfl⟩ := parent?_eq_some h
    rw [segments_upTo, List.dropLast_eq_take, hlen]
    exact ⟨by omega, rfl⟩
  · rintro ⟨hlen, hq⟩
    cases hparent : p.parent? with
    | none =>
      have := parent?_eq_none hparent
      omega
    | some r =>
      obtain ⟨n, hn, rfl⟩ := parent?_eq_some hparent
      have hr : p.upTo n = q := by
        ext1
        rw [hq, segments_upTo, List.dropLast_eq_take, hn]
        rfl
      rw [hr]

/-- There is one way to take a path apart, and it is undone by appending. -/
theorem append_iff_parent : q.append s = .ok p ↔ p.parent? = some q ∧ p.last = s := by
  rw [append_eq_ok, parent?_eq_some_iff]
  constructor
  · intro h
    have hq : 0 < q.segments.length := List.length_pos_of_ne_nil q.segments_ne_nil
    refine ⟨⟨?_, ?_⟩, ?_⟩
    · rw [h, List.length_append, List.length_singleton]
      omega
    · rw [h, List.dropLast_concat]
    · simp [last, h]
  · rintro ⟨⟨-, hq⟩, rfl⟩
    rw [hq]
    exact p.segments_eq

theorem exists_parent (h : 2 ≤ p.segments.length) :
    ∃ parent, p.parent? = some parent ∧ parent.segments = p.segments.dropLast := by
  cases hparent : p.parent? with
  | none =>
    have := parent?_eq_none hparent
    omega
  | some parent => exact ⟨parent, rfl, (parent?_eq_some_iff.1 hparent).2⟩

theorem extends?_iff_mem_ancestry : q.extends? p = true ↔ p ∈ q.ancestry := by
  refine ⟨fun h => ?_, extends?_of_mem_ancestry⟩
  have hprefix := extends?_iff.1 h
  have hpos : 0 < p.segments.length := List.length_pos_of_ne_nil p.segments_ne_nil
  refine List.mem_map.2 ⟨p.segments.length - 1, List.mem_range.2 ?_, ?_⟩
  · have := hprefix.length_le
    omega
  · ext1
    rw [segments_upTo, Nat.sub_add_cancel hpos, ← List.prefix_iff_eq_take.1 hprefix]

theorem isStructural_iff (p : Path) : p.isStructural = true ↔ p.domain = [] :=
  p.wellFormed.structural_iff p.segments_ne_nil

/-- Whatever the operations on paths yield, in any order, is a path that `create` accepts. It is
taken apart in one way, it is above the paths that have it among their prefixes, and it is
structural if it has no domain scopes. -/
theorem built_decomposes (h : Built l) :
    ∃ p : Path, p.segments = l ∧ create l = .ok p ∧ WellFormed l ∧
      (2 ≤ l.length →
        ∃ parent, p.parent? = some parent ∧ parent.segments = l.dropLast ∧
          parent.append (.ofPairs p.last.name p.last.properties) = .ok p) ∧
      (∀ q s, q.append s = .ok p ↔ p.parent? = some q ∧ p.last = s) ∧
      (∀ q : Path, q.extends? p = true ↔ p ∈ q.ancestry) ∧
      (p.isStructural = true ↔ p.domain = []) := by
  obtain ⟨p, hp⟩ := create_ok_iff.2 h.wellFormed
  obtain rfl := create_eq_ok.1 hp
  refine ⟨p, rfl, hp, h.wellFormed, fun hlen => ?_, fun q s => append_iff_parent, fun q =>
    extends?_iff_mem_ancestry, p.isStructural_iff⟩
  obtain ⟨parent, hparent, hsegments⟩ := exists_parent hlen
  refine ⟨parent, hparent, hsegments, ?_⟩
  rw [Segment.ofPairs_self]
  exact append_iff_parent.2 ⟨hparent, rfl⟩

end Path

end ScopedConfig.Scope

namespace ScopedConfig.Sample

open Scope

/-- The parent of a user's path, cut down to its structural scopes. -/
theorem structure_of_alice :
    Built (alice.segments.dropLast.take 2) ∧
      ∃ p parent : Path, p.segments = alice.segments.take 2 ∧ p ∈ alice.ancestry ∧
        p.isStructural = true ∧ p.parent? = some parent ∧
        parent.append (.ofPairs p.last.name p.last.properties) = .ok p := by
  have hbuilt : Built (alice.segments.dropLast.take 2) :=
    (Built.parent (.create (Path.create_eq_ok.2 rfl)) (by decide)).front 1
  obtain ⟨p, hp, -, -, hparent, -, hbelow, hstructural⟩ := Path.built_decomposes hbuilt
  obtain ⟨parent, hsome, -, happend⟩ := hparent (by decide)
  have hsegments : p.segments = alice.segments.take 2 := hp
  refine ⟨hbuilt, p, parent, hsegments, (hbelow alice).1 ?_, hstructural.2 ?_, hsome, happend⟩
  · rw [Path.extends?_iff, hsegments]
    exact List.take_prefix 2 _
  · rw [Path.domain, hsegments]
    rfl

end ScopedConfig.Sample
