import Mathlib.Data.List.Induction
import ScopedConfig.Proofs.Checked

/-!
# How a property is built

A new property is set up step by step, in any order. The step that makes it polymorphic takes the
merge of a complex property for the policy of its kind, and replaces it, even where it was asked
for. So the check refuses a merge that was asked for only if the property was not made polymorphic
after that. In all else the place of this step does not matter.
-/

namespace ScopedConfig.Schema

open ScopedConfig.Except

/-! ## Steps -/

/-- A step that sets up one part of a property. -/
inductive BuildStep where
  | polymorphic
  | merge (value : ValuePolicy)
  | stale (policy : StalePolicy)
  | entries (added removed : EntryPolicy)
  | items (policy : ItemPolicy)
  | reference (reference : Reference)
deriving DecidableEq

namespace BuildStep

def apply (p : Property) : BuildStep → Property
  | polymorphic => p.asPolymorphic
  | merge value => p.mergeBy value
  | stale policy => p.onStale policy
  | entries added removed => p.entriesBy added removed
  | items policy => p.itemsBy policy
  | reference r => p.referTo r

/-- The value policy that the step asks for. -/
def value? : BuildStep → Option ValuePolicy
  | merge value => some value
  | _ => none

/-- The steps but those that make the property polymorphic. -/
def others (steps : List BuildStep) : List BuildStep := steps.filter (· ≠ polymorphic)

/-- The value policy that was asked for last. -/
def requested (steps : List BuildStep) : Option ValuePolicy := (steps.filterMap value?).getLast?

/-- The property was made polymorphic, and no value policy was asked for after that. -/
def polymorphicLast (steps : List BuildStep) : Bool :=
  (steps.filter fun c => c = polymorphic ∨ c.value?.isSome).getLast? = some polymorphic

/-- What was asked for counts, but a merge that is in force when a complex property is made
polymorphic is replaced. -/
def settled (kind : Kind) (steps : List BuildStep) : ValuePolicy :=
  let value := (requested steps).getD (.standard kind false)
  if kind = .complex ∧ value = .merge ∧ polymorphicLast steps then .useChild else value

variable {steps steps' : List BuildStep} {kind : Kind}

theorem requested_others (steps : List BuildStep) : requested (others steps) = requested steps := by
  have hvalues : (others steps).filterMap value? = steps.filterMap value? := by
    rw [others, List.filterMap_filter]
    refine List.filterMap_congr fun c _ => ?_
    cases c <;> rfl
  rw [requested, hvalues, requested]

theorem others_concat (steps : List BuildStep) (c : BuildStep) :
    others (steps ++ [c]) = if c = polymorphic then others steps else others steps ++ [c] := by
  by_cases hc : c = polymorphic <;> simp [others, hc]

theorem settled_nil (kind : Kind) : settled kind [] = .standard kind false := by
  simp [settled, requested, polymorphicLast]

theorem settled_merge (kind : Kind) (steps : List BuildStep) (value : ValuePolicy) :
    settled kind (steps ++ [merge value]) = value := by
  simp [settled, requested, polymorphicLast, value?]

theorem settled_polymorphic (kind : Kind) (steps : List BuildStep) :
    settled kind (steps ++ [polymorphic]) =
      if settled kind steps = .standard kind false then .standard kind true
      else settled kind steps := by
  have hrequested : requested (steps ++ [polymorphic]) = requested steps := by
    simp [requested, value?]
  have hlast : polymorphicLast (steps ++ [polymorphic]) = true := by simp [polymorphicLast]
  rw [settled, settled, hrequested, hlast]
  generalize (requested steps).getD (.standard kind false) = value
  cases kind with
  | complex =>
    cases polymorphicLast steps <;> by_cases hmerge : value = .merge <;>
      simp [hmerge, ValuePolicy.standard]
  | simple | list | set | map =>
    by_cases hchild : value = .useChild <;> simp [hchild, ValuePolicy.standard]

theorem settled_concat (kind : Kind) (steps : List BuildStep) {c : BuildStep}
    (hc : c ≠ polymorphic) (hvalue : c.value? = none) :
    settled kind (steps ++ [c]) = settled kind steps := by
  simp [settled, requested, polymorphicLast, hc, hvalue]

theorem polymorphicLast_of_unrequested (hmem : polymorphic ∈ steps)
    (hnone : requested steps = none) : polymorphicLast steps = true := by
  have hvalues : ∀ c ∈ steps, c.value? = none := by
    simpa [requested, List.filterMap_eq_nil_iff] using hnone
  have hfilter : (steps.filter fun c => c = polymorphic ∨ c.value?.isSome) =
      steps.filter (· = polymorphic) :=
    List.filter_congr fun c hc => by simp [hvalues c hc]
  have hne : steps.filter (· = polymorphic) ≠ [] :=
    List.ne_nil_of_mem (List.mem_filter.2 ⟨hmem, by simp⟩)
  have hlast := List.getLast_mem hne
  rw [List.mem_filter, decide_eq_true_eq] at hlast
  rw [polymorphicLast, hfilter, List.getLast?_eq_some_getLast hne, hlast.2]
  rfl

theorem settled_congr (hmem : polymorphic ∈ steps) (hmem' : polymorphic ∈ steps')
    (hothers : others steps = others steps')
    (hlast : kind = .complex → requested steps = some .merge →
      polymorphicLast steps = polymorphicLast steps') :
    settled kind steps = settled kind steps' := by
  have hrequested : requested steps = requested steps' := by
    rw [← requested_others, hothers, requested_others]
  rw [settled, settled, ← hrequested]
  by_cases hcomplex : kind = .complex
  case neg => simp [hcomplex]
  cases hasked : requested steps with
  | none =>
    rw [polymorphicLast_of_unrequested hmem hasked,
      polymorphicLast_of_unrequested hmem' (hrequested ▸ hasked)]
  | some value =>
    by_cases hmerge : value = .merge
    · subst hmerge
      rw [hlast hcomplex hasked]
    · simp [hmerge]

end BuildStep

/-! ## The property that they build -/

open BuildStep

namespace Property

/-- The property after the steps. -/
def build (p : Property) (steps : List BuildStep) : Property := steps.foldl apply p

variable {name typeName : String} {kind : Kind} {itemKind : ItemKind} {s : Schema}
  {strategies : Strategies} {steps steps' : List BuildStep}

theorem build_concat (p : Property) (steps : List BuildStep) (c : BuildStep) :
    p.build (steps ++ [c]) = c.apply (p.build steps) := by
  rw [build, List.foldl_append]
  rfl

/-- Only the value policy depends on where the property was made polymorphic. -/
theorem build_eq (steps : List BuildStep) :
    (plain name kind typeName itemKind).build steps =
      let p := (plain name kind typeName itemKind).build (others steps)
      { p with
        kind
        polymorphic := decide (.polymorphic ∈ steps)
        policy := { p.policy with value := settled kind steps } } := by
  induction steps using List.reverseRecOn with
  | nil => simp [build, others, plain, Policy.standard, settled_nil]
  | append_singleton steps c ih =>
    rw [build_concat, ih, others_concat]
    cases c with
    | polymorphic => simp [apply, asPolymorphic, settled_polymorphic]
    | merge value => simp [apply, mergeBy, build_concat, settled_merge]
    | stale | entries | items | reference =>
      rw [settled_concat kind steps (by simp) rfl]
      simp [apply, onStale, entriesBy, itemsBy, referTo, build_concat]

theorem build_congr (hmem : .polymorphic ∈ steps) (hmem' : .polymorphic ∈ steps')
    (hothers : others steps = others steps') (hvalue : settled kind steps = settled kind steps') :
    (plain name kind typeName itemKind).build steps =
      (plain name kind typeName itemKind).build steps' := by
  rw [build_eq, build_eq steps', hothers, hvalue]
  simp [hmem, hmem']

theorem name_build (p : Property) (steps : List BuildStep) : (p.build steps).name = p.name := by
  induction steps generalizing p with
  | nil => rfl
  | cons c rest ih =>
    rw [build, List.foldl_cons]
    exact (ih _).trans (by cases c <;> rfl)

/-! ## Its verdict -/

theorem check_of_misuse {p : Property} {m : Misuse} (h : p.misuse? strategies = some m)
    (owner : String) : p.check owner s strategies = Error.misuse (p.placeIn owner) m := by
  rw [check_eq, h]
  rfl

/-- What the check says of a polymorphic property that is to be merged. -/
def mergeMisuse? : Kind → Option Misuse
  | .simple => some .mergeOfSimple
  | .complex => some .mergeOfPolymorphic
  | .list => some (.valueOfList ValuePolicy.merge.text)
  | .set | .map => none

theorem check_merge {p : Property} {m : Misuse} (hpoly : p.polymorphic = true)
    (hvalue : p.policy.value = .merge) (hm : mergeMisuse? p.kind = some m) (owner : String) :
    p.check owner s strategies = Error.misuse (p.placeIn owner) m := by
  refine check_of_misuse ?_ owner
  cases hkind : p.kind <;> simp_all [misuse?, mergeMisuse?]

theorem check_polymorphic_useChild {p : Property} (hkind : p.kind = .complex)
    (hpoly : p.polymorphic = true) (hvalue : p.policy.value = .useChild) (owner : String) :
    p.check owner s strategies = .ok () := by
  rw [check_eq]
  simp [misuse?, hkind, hpoly, hvalue, bind, Except.bind]

theorem check_requested {m : Misuse} (hmem : .polymorphic ∈ steps)
    (hasked : requested steps = some .merge) (hm : mergeMisuse? kind = some m) (owner : String) :
    ((plain name kind typeName itemKind).build steps).check owner s strategies =
      if kind = .complex ∧ polymorphicLast steps then .ok ()
      else Error.misuse (owner ++ "." ++ name) m := by
  have hplace : ((plain name kind typeName itemKind).build steps).placeIn owner =
      owner ++ "." ++ name := by rw [placeIn, name_build, plain]
  have hbuilt : (plain name kind typeName itemKind).build steps = _ := build_eq steps
  generalize (plain name kind typeName itemKind).build steps = p at hplace hbuilt ⊢
  have hkind : p.kind = kind := congrArg Property.kind hbuilt
  have hpoly : p.polymorphic = true := by
    simpa [hmem] using congrArg Property.polymorphic hbuilt
  have hvalue : p.policy.value = settled kind steps :=
    congrArg (fun p => p.policy.value) hbuilt
  rw [settled, hasked] at hvalue
  split
  case isTrue hreplaced =>
    rw [if_pos ⟨hreplaced.1, rfl, hreplaced.2⟩] at hvalue
    exact check_polymorphic_useChild (hkind.trans hreplaced.1) hpoly hvalue owner
  case isFalse hkept =>
    rw [if_neg fun h => hkept ⟨h.1, h.2.2⟩] at hvalue
    rw [check_merge hpoly hvalue (hkind ▸ hm), hplace]

/-- If a polymorphic property was asked to merge, the check refuses it, unless it is complex and was
made polymorphic after that: then the merge was replaced and is accepted. In no other case does the
verdict depend on where among the steps the property was made polymorphic. -/
theorem polymorphic_verdict (name typeName : String) (kind : Kind) (itemKind : ItemKind)
    (owner : String) (s : Schema) (strategies : Strategies) :
    (∀ steps m, .polymorphic ∈ steps → requested steps = some .merge →
      mergeMisuse? kind = some m →
      ((plain name kind typeName itemKind).build steps).check owner s strategies =
        if kind = .complex ∧ polymorphicLast steps then .ok ()
        else Error.misuse (owner ++ "." ++ name) m) ∧
    ∀ steps steps', .polymorphic ∈ steps → .polymorphic ∈ steps' → others steps = others steps' →
      (((plain name kind typeName itemKind).build steps).check owner s strategies =
          ((plain name kind typeName itemKind).build steps').check owner s strategies ↔
        (kind = .complex → requested steps = some .merge →
          polymorphicLast steps = polymorphicLast steps')) := by
  refine ⟨fun steps m hmem hasked hm => check_requested hmem hasked hm owner,
    fun steps steps' hmem hmem' hothers => ⟨fun hsame hcomplex hasked => ?_, fun hlast => ?_⟩⟩
  · have hasked' : requested steps' = some .merge := by
      rw [← requested_others, ← hothers, requested_others, hasked]
    have hm : mergeMisuse? kind = some .mergeOfPolymorphic := by rw [hcomplex]; rfl
    rw [check_requested hmem hasked hm, check_requested hmem' hasked' hm] at hsame
    simp only [hcomplex, true_and, Error.misuse] at hsame
    cases hfirst : polymorphicLast steps <;> cases hsecond : polymorphicLast steps' <;>
      simp [hfirst, hsecond] at hsame ⊢
  · rw [build_congr hmem hmem' hothers (settled_congr hmem hmem' hothers hlast)]

end Property

end ScopedConfig.Schema

namespace ScopedConfig.Sample

open Schema BuildStep

/-- The merge of a complex property that was made polymorphic first is refused. That of a list is
refused in any order, and with another policy the order does not matter for the complex one. -/
theorem merge_after_polymorphic_refused :
    ((Property.complex "handler" "Handler").build [polymorphic, merge .merge]).check "App" .empty
        .standard = Error.misuse "App.handler" .mergeOfPolymorphic ∧
      ((Property.list "rules" .simple "Rule").build [merge .merge, polymorphic]).check "App" .empty
        .standard = Error.misuse "App.rules" (.valueOfList "merge") ∧
      ((Property.complex "handler" "Handler").build [merge .useParent, polymorphic]).check "App"
          .empty .standard =
        ((Property.complex "handler" "Handler").build [polymorphic, merge .useParent]).check "App"
          .empty .standard :=
  ⟨(Property.polymorphic_verdict "handler" "Handler" .complex .complex "App" .empty .standard).1
      [polymorphic, merge .merge] _ (by decide) (by decide) rfl,
    (Property.polymorphic_verdict "rules" "Rule" .list .simple "App" .empty .standard).1
      [merge .merge, polymorphic] _ (by decide) (by decide) rfl,
    ((Property.polymorphic_verdict "handler" "Handler" .complex .complex "App" .empty .standard).2
      [merge .useParent, polymorphic] [polymorphic, merge .useParent] (by decide) (by decide)
      (by decide)).2 (by decide)⟩

/-- A merge that was asked for before is lost, and nobody is told. -/
theorem merge_before_polymorphic_accepted :
    let steps := [merge .merge, polymorphic]
    let handler := Property.complex "handler" "Handler"
    polymorphic ∈ steps ∧ requested steps = some .merge ∧
      (handler.build steps).policy.value = .useChild ∧
      (handler.build steps).check "App" .empty .standard = .ok () ∧
      (handler.build steps.reverse).check "App" .empty .standard ≠ .ok () := by
  decide

end ScopedConfig.Sample
