import Mathlib.Data.List.Nodup
import ScopedConfig.Proofs.PathShape

/-!
# Registered chains

A registry grows by calls, each of which adds a scope after all others or is refused. The domain
scopes of a path are accepted if they are some of the registered ones in the registered order and
carry what they have to. All else that a path needs follows from that and from legal tokens.
-/

namespace ScopedConfig.Scope

open ScopedConfig.Except

theorem cons_sublist_drop {α : Type} {a : α} {l all : List α} {n : Nat} :
    (a :: l).Sublist (all.drop n) ↔
      ∃ i, n ≤ i ∧ all[i]? = some a ∧ l.Sublist (all.drop (i + 1)) := by
  constructor
  · intro h
    obtain ⟨before, after, hdrop, hmem, hrest⟩ := List.cons_sublist_iff.1 h
    obtain ⟨k, hk, ha⟩ := List.mem_iff_getElem.1 hmem
    refine ⟨n + k, Nat.le_add_right n k, ?_, ?_⟩
    · rw [← List.getElem?_drop, hdrop, List.getElem?_append_left hk, List.getElem?_eq_getElem hk,
        ha]
    · have hafter : all.drop (n + k + 1) = before.drop (k + 1) ++ after := by
        rw [Nat.add_assoc, ← List.drop_drop, hdrop, List.drop_append_of_le_length hk]
      rw [hafter]
      exact hrest.trans (List.sublist_append_right _ _)
  · rintro ⟨i, hi, ha, hrest⟩
    obtain ⟨hlen, rfl⟩ := List.getElem?_eq_some_iff.1 ha
    have hfrom := hrest.cons_cons all[i]
    rw [← List.drop_eq_getElem_cons hlen] at hfrom
    exact hfrom.trans (List.drop_sublist_drop_left all hi)

namespace Registry

variable {r : Registry} {l : List Segment}

def names (r : Registry) : List String := r.scopes.map Descriptor.name

/-! ## Calls -/

/-- What the registry is after a call. -/
def afterCall (r : Registry) (d : Descriptor) : Registry :=
  match r.register d with
  | .ok r' => r'
  | .error _ => r

def afterCalls (r : Registry) (calls : List Descriptor) : Registry := calls.foldl afterCall r

/-- The names are those of domain scopes, and none comes twice. -/
structure Proper (r : Registry) : Prop where
  distinct : r.names.Nodup
  notClass : "class" ∉ r.names
  notDefault : "default" ∉ r.names

theorem find?_isSome {name : String} : (r.find? name).isSome = true ↔ name ∈ r.names := by
  simp [find?, names, List.find?_isSome]

theorem register_eq_ok {r' : Registry} {d : Descriptor} :
    r.register d = .ok r' ↔
      (d.name ≠ "class" ∧ d.name ≠ "default" ∧ d.name ∉ r.names) ∧ r' = ⟨r.scopes ++ [d]⟩ := by
  unfold register
  by_cases hstructural : d.name = "class" ∨ d.name = "default"
  · rw [if_pos (by simpa using hstructural)]
    constructor
    · intro h
      cases h
    · rintro ⟨⟨hclass, hdefault, -⟩, -⟩
      exact absurd hstructural (not_or.2 ⟨hclass, hdefault⟩)
  · rw [if_neg (by simpa using hstructural)]
    rw [not_or] at hstructural
    by_cases hknown : d.name ∈ r.names
    · rw [if_pos (find?_isSome.2 hknown)]
      constructor
      · intro h
        cases h
      · rintro ⟨⟨-, -, hnew⟩, -⟩
        exact absurd hknown hnew
    · rw [if_neg (mt find?_isSome.1 hknown), Except.ok.injEq, eq_comm]
      exact ⟨fun h => ⟨⟨hstructural.1, hstructural.2, hknown⟩, h⟩, fun h => h.2⟩

theorem Proper.afterCall (h : Proper r) (d : Descriptor) : Proper (r.afterCall d) := by
  unfold Registry.afterCall
  split
  case h_1 r' hregister =>
    obtain ⟨⟨hclass, hdefault, hnew⟩, rfl⟩ := register_eq_ok.1 hregister
    have hnames : names ⟨r.scopes ++ [d]⟩ = r.names ++ [d.name] := by simp [names]
    refine ⟨?_, ?_, ?_⟩
    · rw [hnames, ← List.concat_eq_append, List.nodup_concat]
      exact ⟨hnew, h.distinct⟩
    · simp [hnames, h.notClass, Ne.symm hclass]
    · simp [hnames, h.notDefault, Ne.symm hdefault]
  case h_2 => exact h

theorem Proper.afterCalls (h : Proper r) (calls : List Descriptor) :
    Proper (r.afterCalls calls) := by
  unfold Registry.afterCalls
  induction calls generalizing r with
  | nil => exact h
  | cons d rest ih => exact ih (h.afterCall d)

theorem proper_empty : Proper .empty := by
  constructor <;> decide

theorem proper_standard : Proper .standard := by
  constructor <;> decide

/-! ## Accepted chains -/

/-- Some of the registered scopes in the registered order, each with the properties that it
needs. -/
structure Accepts (r : Registry) (l : List Segment) : Prop where
  ordered : (l.map Segment.name).Sublist r.names
  complete : ∀ s ∈ l, ∀ d ∈ r.scopes, d.name = s.name →
    ∀ key ∈ d.required, (s.property? key).isSome = true

theorem position?_eq_some (hdistinct : r.names.Nodup) {name : String} {i : Nat} :
    r.position? name = some i ↔ r.names[i]? = some name := by
  unfold position?
  rw [List.findIdx?_eq_some_iff_getElem, List.getElem?_eq_some_iff]
  constructor
  · rintro ⟨hi, hname, -⟩
    exact ⟨by simpa [names] using hi, by simpa [names] using hname⟩
  · rintro ⟨hi, rfl⟩
    have hlen : i < r.scopes.length := by simpa [names] using hi
    refine ⟨hlen, by simp [names], ?_⟩
    intro j hj hsame
    have hbefore : j < r.names.length := by omega
    have hnames : r.names[j] = r.names[i] := by simpa [names] using hsame
    have := (hdistinct.getElem_inj_iff).1 hnames
    omega

theorem mem_names_of_position {name : String} {i : Nat} (h : r.position? name = some i) :
    name ∈ r.names := by
  obtain ⟨hi, hname, -⟩ := List.findIdx?_eq_some_iff_getElem.1 h
  exact List.mem_map.2 ⟨r.scopes[i], List.getElem_mem hi, by simpa using hname⟩

theorem validateFrom_cons {whole : String} {next : Nat} {s : Segment} {rest : List Segment} :
    r.validateFrom whole next (s :: rest) = .ok () ↔
      ∃ i, r.position? s.name = some i ∧ next ≤ i ∧
        (∀ key ∈ ((r.scopes[i]?).map Descriptor.required).getD [],
          (s.property? key).isSome = true) ∧
        r.validateFrom whole (i + 1) rest = .ok () := by
  rw [validateFrom]
  cases hposition : r.position? s.name with
  | none => simp
  | some i =>
    simp only [Option.some.injEq, exists_eq_left']
    by_cases hnext : i < next
    · rw [if_pos hnext]
      constructor
      · intro h
        cases h
      · rintro ⟨hle, -⟩
        omega
    · rw [if_neg hnext]
      cases hmissing : (((r.scopes[i]?).map Descriptor.required).getD []).find?
          fun key => (s.property? key).isNone with
      | none =>
        have hall := List.find?_eq_none.1 hmissing
        simp only [Option.isNone_iff_eq_none, ← ne_eq, Option.ne_none_iff_isSome] at hall
        exact ⟨fun h => ⟨Nat.le_of_not_lt hnext, hall, h⟩, fun h => h.2.2⟩
      | some key =>
        have hkey := List.find?_some hmissing
        constructor
        · intro h
          cases h
        · rintro ⟨-, hall, -⟩
          have := hall key (List.mem_of_find?_eq_some hmissing)
          simp_all

/-- The check that starts at a position accepts the chains of the scopes from there on. -/
theorem validateFrom_eq_ok (hdistinct : r.names.Nodup) {whole : String} {next : Nat} :
    r.validateFrom whole next l = .ok () ↔
      (l.map Segment.name).Sublist (r.names.drop next) ∧
        ∀ s ∈ l, ∀ d ∈ r.scopes, d.name = s.name →
          ∀ key ∈ d.required, (s.property? key).isSome = true := by
  induction l generalizing next with
  | nil => simp [validateFrom]
  | cons s rest ih =>
    rw [validateFrom_cons, List.map_cons, cons_sublist_drop, List.forall_mem_cons]
    -- The descriptor at the position of a name is the one with that name.
    have hrequired {i : Nat} (hi : r.names[i]? = some s.name) :
        (∀ key ∈ ((r.scopes[i]?).map Descriptor.required).getD [],
          (s.property? key).isSome = true) ↔
        ∀ d ∈ r.scopes, d.name = s.name →
          ∀ key ∈ d.required, (s.property? key).isSome = true := by
      rw [names, List.getElem?_map, Option.map_eq_some_iff] at hi
      obtain ⟨d, hd, hname⟩ := hi
      simp only [hd, Option.map_some, Option.getD_some]
      constructor
      · intro h e he hsame
        have hinj := List.inj_on_of_nodup_map hdistinct he (List.mem_of_getElem? hd)
        rwa [hinj (hsame.trans hname.symm)]
      · intro h
        exact h d (List.mem_of_getElem? hd) hname
    constructor
    · rintro ⟨i, hposition, hnext, hown, hrest⟩
      have hi := (position?_eq_some hdistinct).1 hposition
      obtain ⟨hordered, hothers⟩ := ih.1 hrest
      exact ⟨⟨i, hnext, hi, hordered⟩, (hrequired hi).1 hown, hothers⟩
    · rintro ⟨⟨i, hnext, hi, hordered⟩, hown, hothers⟩
      exact ⟨i, (position?_eq_some hdistinct).2 hi, hnext, (hrequired hi).2 hown,
        ih.2 ⟨hordered, hothers⟩⟩

theorem validate_eq_ok (hdistinct : r.names.Nodup) {p : Path} :
    r.validate p = .ok () ↔ r.Accepts p.domain := by
  rw [validate, validateFrom_eq_ok hdistinct, List.drop_zero]
  exact ⟨fun h => ⟨h.1, h.2⟩, fun h => ⟨h.ordered, h.complete⟩⟩

end Registry

/-! ## Paths of a class -/

namespace Path

variable {p q : Path}

/-- The scopes that every path of a class begins with. -/
def start (className : String) : List Segment :=
  [.withProperty "class" "name" className, .named "default"]

theorem appendAll_eq_ok {segments : List Segment} :
    q.appendAll segments = .ok p ↔ p.segments = q.segments ++ segments := by
  induction segments generalizing q with
  | nil =>
    simp only [appendAll, Except.ok.injEq, List.append_nil]
    exact ⟨fun h => h ▸ rfl, fun h => (ext h).symm⟩
  | cons s rest ih =>
    rw [appendAll]
    refine bind_eq_ok.trans ?_
    constructor
    · rintro ⟨next, hnext, h⟩
      rw [ih.1 h, append_eq_ok.1 hnext, List.append_assoc, List.singleton_append]
    · intro h
      -- What is reached after one step is a beginning of the whole path.
      have hcut : (p.upTo q.segments.length).segments = q.segments ++ [s] := by
        rw [segments_upTo, h, List.append_cons, List.take_left' (by simp)]
      refine ⟨p.upTo q.segments.length, append_eq_ok.2 hcut, ih.2 ?_⟩
      rw [hcut, h, List.append_assoc, List.singleton_append]

theorem forClass_eq_ok {className : String} :
    forClass className = .ok p ↔ p.segments = start className := by
  rw [forClass, create_eq_ok, eq_comm]
  rfl

end Path

/-- All texts of the segment are tokens. -/
def Segment.HasTokens (s : Segment) : Prop :=
  IsToken s.name ∧ ∀ e ∈ s.properties, IsToken e.1 ∧ IsToken e.2

instance (s : Segment) : Decidable s.HasTokens := inferInstanceAs (Decidable (_ ∧ _))

theorem wellFormed_start {className : String} {l : List Segment} :
    WellFormed (Path.start className ++ l) ↔
      IsToken className ∧ (∀ s ∈ l, s.HasTokens) ∧
        ("class" :: "default" :: l.map Segment.name).Nodup := by
  have hproperties : (Segment.withProperty "class" "name" className).properties =
      [("name", className)] := rfl
  constructor
  · intro h
    have htokens := h.tokens
    simp only [Path.start, List.cons_append, List.nil_append, List.forall_mem_cons] at htokens
    obtain ⟨hclass, -, hothers⟩ := htokens
    refine ⟨?_, hothers, h.distinct⟩
    rw [hproperties, List.forall_mem_singleton] at hclass
    exact hclass.2.2
  · rintro ⟨hclass, htokens, hdistinct⟩
    have hclassScope : IsToken "class" := by decide
    have hname : IsToken "name" := by decide
    have hdefaultScope : IsToken "default" := by decide
    refine ⟨⟨_, rfl, rfl, rfl⟩, ?_, ?_, hdistinct⟩
    · rintro second ⟨⟩
      rfl
    · simp only [Path.start, List.cons_append, List.nil_append, List.forall_mem_cons]
      refine ⟨⟨hclassScope, ?_⟩, ⟨hdefaultScope, ?_⟩, htokens⟩
      · rw [hproperties, List.forall_mem_singleton]
        exact ⟨hname, hclass⟩
      · rintro e ⟨⟩

namespace Registry

variable {r : Registry} {className : String} {segments : List Segment} {p : Path}

theorem pathFor_eq_ok :
    r.pathFor className segments = .ok p ↔
      p.segments = Path.start className ++ segments ∧ r.validate p = .ok () := by
  unfold pathFor
  simp only [bind_eq_ok, pure_eq_ok]
  constructor
  · rintro ⟨base, hbase, p, hp, ⟨⟩, hvalid, rfl⟩
    rw [Path.appendAll_eq_ok.1 hp, Path.forClass_eq_ok.1 hbase]
    exact ⟨rfl, hvalid⟩
  · rintro ⟨hsegments, hvalid⟩
    have hbase : (p.upTo 1).segments = Path.start className := by
      rw [Path.segments_upTo, hsegments]
      rfl
    refine ⟨p.upTo 1, Path.forClass_eq_ok.2 hbase, p, Path.appendAll_eq_ok.2 ?_, (), hvalid, rfl⟩
    rw [hbase, hsegments]

theorem domain_of_start (h : p.segments = Path.start className ++ segments) :
    p.className = className ∧ p.domain = segments := by
  constructor
  · simp only [Path.className, h]
    rfl
  · rw [Path.domain, h]
    rfl

theorem Accepts.distinct (h : r.Accepts segments) (hr : r.Proper) :
    ("class" :: "default" :: segments.map Segment.name).Nodup := by
  have hclass : "class" ∉ segments.map Segment.name := mt (h.ordered.subset ·) hr.notClass
  have hdefault : "default" ∉ segments.map Segment.name := mt (h.ordered.subset ·) hr.notDefault
  have hnames := hr.distinct.sublist h.ordered
  simp [hclass, hdefault, hnames]

theorem exists_pathFor_iff (hr : r.Proper) :
    (∃ p, r.pathFor className segments = .ok p) ↔
      IsToken className ∧ (∀ s ∈ segments, s.HasTokens) ∧ r.Accepts segments := by
  constructor
  · rintro ⟨p, h⟩
    obtain ⟨hsegments, hvalid⟩ := pathFor_eq_ok.1 h
    have hwell := p.wellFormed
    rw [hsegments] at hwell
    obtain ⟨hclass, htokens, -⟩ := wellFormed_start.1 hwell
    rw [validate_eq_ok hr.distinct, (domain_of_start hsegments).2] at hvalid
    exact ⟨hclass, htokens, hvalid⟩
  · rintro ⟨hclass, htokens, haccepts⟩
    have hwell := wellFormed_start.2 ⟨hclass, htokens, haccepts.distinct hr⟩
    obtain ⟨p, hp⟩ := Path.create_ok_iff.2 hwell
    have hsegments := (Path.create_eq_ok.1 hp).symm
    refine ⟨p, pathFor_eq_ok.2 ⟨hsegments, ?_⟩⟩
    rw [validate_eq_ok hr.distinct, (domain_of_start hsegments).2]
    exact haccepts

/-- The registries that calls make have names of domain scopes only, and each name once. They accept
exactly the paths whose domain scopes are some of theirs, in their order and with what they need. -/
theorem accepts_subchains {base : Registry} (hbase : base = .empty ∨ base = .standard)
    (calls : List Descriptor) (hr : r = base.afterCalls calls) :
    r.Proper ∧
      (∀ d r', r.register d = .ok r' ↔
        (d.name ≠ "class" ∧ d.name ≠ "default" ∧ d.name ∉ r.names) ∧ r' = ⟨r.scopes ++ [d]⟩) ∧
      (∀ d fault, r.register d = .error fault → r.afterCall d = r) ∧
      (∀ className segments, (∃ p, r.pathFor className segments = .ok p) ↔
        IsToken className ∧ (∀ s ∈ segments, s.HasTokens) ∧ r.Accepts segments) ∧
      (∀ className segments p, r.pathFor className segments = .ok p →
        p.segments.take 2 = Path.start className ∧ p.className = className ∧
          p.domain = segments) ∧
      ∀ p, r.validate p = .ok () ↔ r.Accepts p.domain := by
  have hproper : r.Proper := by
    subst hr
    rcases hbase with rfl | rfl
    · exact proper_empty.afterCalls calls
    · exact proper_standard.afterCalls calls
  refine ⟨hproper, fun d r' => register_eq_ok, fun d fault h => by rw [afterCall, h],
    fun className segments => exists_pathFor_iff hproper, fun className segments p h => ?_,
    fun p => validate_eq_ok hproper.distinct⟩
  obtain ⟨hsegments, -⟩ := pathFor_eq_ok.1 h
  refine ⟨?_, domain_of_start hsegments⟩
  rw [hsegments]
  rfl

end Registry

end ScopedConfig.Scope

namespace ScopedConfig.Sample

open Scope

/-- Two of these calls are refused. -/
def teamCalls : List Descriptor := [⟨"default", []⟩, ⟨"team", ["lead"]⟩, ⟨"user", []⟩]

def teamRegistry : Registry := Registry.standard.afterCalls teamCalls

def coreTeam : Segment := .ofPairs "team" [("lead", "bob"), ("room", "7")]

/-- The new scope comes after the standard ones, and needs its own property. -/
theorem teams_accepted :
    teamRegistry.names = ["global", "user", "instance", "team"] ∧
      (∃ p, teamRegistry.pathFor "App" [user, coreTeam] = .ok p ∧ p.domain = [user, coreTeam]) ∧
      (∀ p, teamRegistry.pathFor "App" [coreTeam, user] ≠ .ok p) ∧
      ∀ p, teamRegistry.pathFor "App" [.named "team"] ≠ .ok p := by
  have hteams : teamRegistry = Registry.standard.afterCalls teamCalls := rfl
  obtain ⟨-, -, -, haccepted, hpath, -⟩ :=
    Registry.accepts_subchains (.inr rfl) teamCalls hteams
  refine ⟨by decide, ?_, fun p h => ?_, fun p h => ?_⟩
  · obtain ⟨p, hp⟩ := (haccepted "App" [user, coreTeam]).2
      ⟨by decide, by decide, ⟨by decide, by decide⟩⟩
    exact ⟨p, hp, (hpath _ _ p hp).2.2⟩
  · obtain ⟨-, -, hordered, -⟩ := (haccepted _ _).1 ⟨p, h⟩
    exact absurd hordered (by decide)
  · obtain ⟨-, -, -, hcomplete⟩ := (haccepted _ _).1 ⟨p, h⟩
    exact absurd hcomplete (by decide)

end ScopedConfig.Sample
