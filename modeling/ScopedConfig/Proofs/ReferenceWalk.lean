import ScopedConfig.Proofs.ReferenceGraph

/-!
# The walk along references

What the walk knows of the places that it has finished. Each of them was finished after all places
that its references lead to, and what it embeds is finished as soon as no type is open at its path.
-/

namespace ScopedConfig.Reference

open Schema (Record Property)
open ScopedConfig.Except

variable {s : Schema} {chain opened all frames : List Place} {fuel : Nat} {r : Record}
  {path : Scope.Path} {done done' : Finished} {p : Property} {a b c root : Place}

/-! ## One property -/

/-- What the walk does for one property of a type at the path. -/
def follow (s : Schema) (chain : List Place) (fuel : Nat) (opened : List Place) (path : Scope.Path)
    (done : Finished) (p : Property) : Except Error Finished :=
  match p.reference with
  | some reference => do
    let target ← s.require reference.target
    let path ← resolve s reference
    let chain := chain ++ [(target.name, path)]
    if chain.dropLast.any fun frame => frame.2 == path then throw (.cycle chain)
    visit s chain fuel opened target path done
  | none =>
    if p.hasComplexItems && !p.polymorphic then do
      let embedded ← s.require p.typeName
      visit s chain fuel opened embedded path done
    else pure done

theorem visit_succ :
    visit s chain (fuel + 1) opened r path done =
      if done.contains (r.name, path) || opened.contains (r.name, path) then .ok done
      else do
        let done ← r.properties.foldlM (follow s chain fuel ((r.name, path) :: opened) path) done
        return (r.name, path) :: done := rfl

theorem visit_eq_ok (h : visit s chain (fuel + 1) opened r path done = .ok done') :
    ((r.name, path) ∈ done ∨ (r.name, path) ∈ opened) ∧ done' = done ∨
      (r.name, path) ∉ opened ∧ ∃ mid,
        r.properties.foldlM (follow s chain fuel ((r.name, path) :: opened) path) done = .ok mid ∧
          done' = (r.name, path) :: mid := by
  rw [visit_succ] at h
  split at h
  case isTrue hentered =>
    simp only [Bool.or_eq_true, List.contains_iff_mem] at hentered
    exact .inl ⟨hentered, (Except.ok.inj h).symm⟩
  case isFalse hnew =>
    simp only [Bool.or_eq_true, List.contains_iff_mem, not_or] at hnew
    obtain ⟨mid, hfold, h⟩ := bind_eq_ok.1 h
    exact .inr ⟨hnew.2, mid, hfold, (pure_eq_ok.1 h).symm⟩

theorem any_path {path : Scope.Path} {frame : Place} :
    ((chain ++ [frame]).dropLast.any fun f => f.2 == path) = true ↔ path ∈ chain.map Prod.snd := by
  simp

/-- The ways in which the walk deals with a property. -/
inductive Following (s : Schema) (chain : List Place) (fuel : Nat) (opened : List Place)
    (path : Scope.Path) (done : Finished) (p : Property) (result : Except Error Finished) : Prop
  | dangles {e : Error} (reason : Dangles s p e) (eq : result = .error e)
  | loop {b : Place} (leads : LeadsTo s p b) (old : b.2 ∈ chain.map Prod.snd)
    (eq : result = .error (.cycle (chain ++ [b])))
  | refer {target : Record} {path' : Scope.Path} (known : s.find? target.name = some target)
    (leads : LeadsTo s p (target.name, path')) (new : path' ∉ chain.map Prod.snd)
    (eq : result = visit s (chain ++ [(target.name, path')]) fuel opened target path' done)
  | embed {type : Record} (known : s.find? type.name = some type) (name : type.name = p.typeName)
    (embedding : IsEmbedding p) (eq : result = visit s chain fuel opened type path done)
  | plain (unlinked : ∀ b, ¬LeadsTo s p b) (simple : ¬IsEmbedding p) (eq : result = .ok done)

theorem follow_cases {s : Schema} (hnamed : s.IsNamed) (chain : List Place) (fuel : Nat)
    (opened : List Place) (path : Scope.Path) (done : Finished) (p : Property) :
    Following s chain fuel opened path done p (follow s chain fuel opened path done p) := by
  -- A reference goes before the type of the values, which is entered only where there is none.
  cases href : p.reference with
  | some reference =>
    cases htarget : s.require reference.target with
    | error e =>
      refine .dangles (.inl ⟨reference, href, .inl htarget⟩) ?_
      simp [follow, href, htarget, bind, Except.bind]
    | ok target =>
      have hfind := Merge.require_ok htarget
      have hname : target.name = reference.target := hnamed.of_find? hfind
      cases hpath : resolve s reference with
      | error e =>
        refine .dangles (.inl ⟨reference, href, .inr hpath⟩) ?_
        simp [follow, href, htarget, hpath, bind, Except.bind]
      | ok path' =>
        have hleads : LeadsTo s p (target.name, path') := ⟨reference, href, hname, hpath⟩
        have heq : follow s chain fuel opened path done p =
            if path' ∈ chain.map Prod.snd then .error (.cycle (chain ++ [(target.name, path')]))
            else visit s (chain ++ [(target.name, path')]) fuel opened target path' done := by
          simp only [follow, href, htarget, hpath, any_path, bind, Except.bind]
          split <;> rfl
        by_cases hold : path' ∈ chain.map Prod.snd
        · exact .loop hleads hold (heq.trans (if_pos hold))
        · exact .refer (hname ▸ hfind) hleads hold (heq.trans (if_neg hold))
  | none =>
    have hunlinked (b : Place) : ¬LeadsTo s p b := by
      rintro ⟨reference, href', -⟩
      exact Option.some_ne_none reference (href'.symm.trans href)
    by_cases hembedding : IsEmbedding p
    · cases htype : s.require p.typeName with
      | error e =>
        refine .dangles (.inr ⟨hembedding, htype⟩) ?_
        simp [follow, href, hembedding.2.1, hembedding.2.2, htype, bind, Except.bind]
      | ok type =>
        have hfind := Merge.require_ok htype
        have hname : type.name = p.typeName := hnamed.of_find? hfind
        refine .embed (hname ▸ hfind) hname hembedding ?_
        simp [follow, href, hembedding.2.1, hembedding.2.2, htype, bind, Except.bind]
    · have hplain : (p.hasComplexItems && !p.polymorphic) = false := by
        rw [← Bool.not_eq_true, Bool.and_eq_true, Bool.not_eq_true']
        exact fun h => hembedding ⟨href, h⟩
      refine .plain hunlinked hembedding ?_
      simp [follow, href, hplain, pure, Except.pure]

/-! ## Finished places -/

/-- Where a finished place refers to was finished before it, with all that is embedded there. -/
def Settled (s : Schema) : Finished → Prop
  | [] => True
  | a :: rest => (∀ b, Refers s a b → ∀ c, Contains s b c → c ∈ rest) ∧ Settled s rest

/-- What a finished place embeds is finished or still open. -/
def Enclosed (s : Schema) (opened : List Place) (done : Finished) : Prop :=
  ∀ a ∈ done, ∀ b, Embeds s a b → b ∈ done ∨ b ∈ opened

theorem Settled.refers (h : Settled s done) (ha : a ∈ done) (hab : Refers s a b)
    (hbc : Contains s b c) : c ∈ done := by
  induction done with
  | nil => cases ha
  | cons first rest ih =>
    rcases List.mem_cons.1 ha with rfl | ha
    · exact List.mem_cons_of_mem _ (h.1 b hab c hbc)
    · exact List.mem_cons_of_mem _ (ih h.2 ha)

theorem Settled.reaches (h : Settled s done) (ha : ∀ c, Contains s a c → c ∈ done)
    (hab : Reaches s a b) : ∀ c, Contains s b c → c ∈ done := by
  induction hab with
  | refl => exact ha
  | tail _ hstep ih =>
    intro c hc
    rcases hstep with hstep | hstep
    · exact h.refers (ih _ .refl) hstep hc
    · exact ih c (hc.head hstep)

/-- From where a finished place refers to, there is no way back to it. -/
theorem Settled.no_return (h : Settled s done) (ha : a ∈ done) (hab : Refers s a b) :
    ¬Reaches s b a := by
  induction done with
  | nil => cases ha
  | cons first rest ih =>
    by_cases hrest : a ∈ rest
    · exact ih h.2 hrest
    · obtain rfl : a = first := (List.mem_cons.1 ha).resolve_right hrest
      exact fun hba => hrest (h.2.reaches (h.1 b hab) hba a .refl)

theorem Enclosed.contains (h : Enclosed s opened done) (ha : a ∈ done)
    (hclosed : ∀ b ∈ opened, b.2 ≠ a.2) (hac : Contains s a c) : c ∈ done := by
  induction hac with
  | refl => exact ha
  | tail hab hstep ih =>
    refine (h _ ih _ hstep).resolve_right fun hopen => hclosed _ hopen ?_
    exact path_of_contains (hab.tail hstep)

/-! ## A walk that ends well -/

/-- The places that are finished, while others are open. -/
structure Explored (s : Schema) (opened : List Place) (done : Finished) : Prop where
  settled : Settled s done
  enclosed : Enclosed s opened done

/-- The open places are different, are at paths of the chain, and leave room for all others. -/
structure Room (all chain opened : List Place) (fuel : Nat) : Prop where
  passed : ∀ b ∈ opened, b.2 ∈ chain.map Prod.snd
  known : opened ⊆ all
  nodup : opened.Nodup
  enough : all.length < opened.length + fuel

theorem Room.fuel_pos (h : Room all chain opened fuel) : fuel ≠ 0 := by
  have hle : opened.length ≤ all.length := (List.subperm_of_subset h.nodup h.known).length_le
  have := h.enough
  omega

theorem Room.extend (h : Room all chain opened fuel) (frame : Place) :
    Room all (chain ++ [frame]) opened fuel where
  passed b hb := by
    rw [List.map_append]
    exact List.mem_append_left _ (h.passed b hb)
  known := h.known
  nodup := h.nodup
  enough := h.enough

theorem Room.enter (h : Room all chain opened (fuel + 1)) (ha : a ∈ all) (hnew : a ∉ opened)
    (hpath : a.2 ∈ chain.map Prod.snd) : Room all chain (a :: opened) fuel where
  passed := List.forall_mem_cons.2 ⟨hpath, h.passed⟩
  known := List.cons_subset.2 ⟨ha, h.known⟩
  nodup := List.nodup_cons.2 ⟨hnew, h.nodup⟩
  enough := by
    have := h.enough
    rw [List.length_cons]
    omega

/-- What a visit of the place adds. -/
structure Finishes (s : Schema) (opened : List Place) (a : Place) (done done' : Finished) :
    Prop where
  explored : Explored s opened done'
  more : done ⊆ done'
  finished : a ∈ done' ∨ a ∈ opened

/-- A visit that ends well finishes the place, given room. -/
def VisitFinishes (s : Schema) (all : List Place) (fuel : Nat) : Prop :=
  ∀ {chain opened : List Place} {r : Record} {path : Scope.Path} {done done' : Finished},
    (r.name, path) ∈ all → s.find? r.name = some r → path ∈ chain.map Prod.snd →
    Room all chain opened fuel → Explored s opened done →
    visit s chain fuel opened r path done = .ok done' →
    Finishes s opened (r.name, path) done done'

/-- What the property leads to is finished with all that it contains; what it embeds is finished or
still open. -/
structure Handled (s : Schema) (opened : List Place) (path : Scope.Path) (p : Property)
    (done : Finished) : Prop where
  reference : ∀ b, LeadsTo s p b → ∀ c, Contains s b c → c ∈ done
  embedding : IsEmbedding p → (p.typeName, path) ∈ done ∨ (p.typeName, path) ∈ opened

theorem Handled.mono (h : Handled s opened path p done) (hmore : done ⊆ done') :
    Handled s opened path p done' where
  reference b hb c hc := hmore (h.reference b hb c hc)
  embedding hp := (h.embedding hp).imp_left fun hdone => hmore hdone

/-- The places are closed under steps to known types. -/
def ClosedUnder (s : Schema) (all : List Place) : Prop :=
  ∀ a ∈ all, ∀ b, Step s a b → (∃ r, s.find? b.1 = some r) → b ∈ all

section
variable (hnamed : s.IsNamed) (hall : ClosedUnder s all)
include hnamed hall

theorem follow_finishes (hvisit : VisitFinishes s all fuel) (ha : (r.name, path) ∈ all)
    (hr : s.find? r.name = some r) (hp : p ∈ r.properties) (hpath : path ∈ chain.map Prod.snd)
    (hroom : Room all chain opened fuel) (hdone : Explored s opened done)
    (h : follow s chain fuel opened path done p = .ok done') :
    Explored s opened done' ∧ done ⊆ done' ∧ Handled s opened path p done' := by
  cases follow_cases hnamed chain fuel opened path done p with
  | dangles _ eq | loop _ _ eq => cases eq.symm.trans h
  | @refer target path' known leads new eq =>
    have hplace : (target.name, path') ∈ all :=
      hall _ ha _ (.inl ⟨r, hr, p, hp, leads⟩) ⟨target, known⟩
    obtain ⟨hexplored, hmore, hfinished⟩ :=
      hvisit hplace known (by simp) (hroom.extend _) hdone (eq ▸ h)
    -- Open places are at paths of the chain, so none is at the new path.
    have hclosed : ∀ b ∈ opened, b.2 ≠ path' := fun b hb heq => new (heq ▸ hroom.passed b hb)
    have hthere : (target.name, path') ∈ done' :=
      hfinished.resolve_right fun hopen => hclosed _ hopen rfl
    refine ⟨hexplored, hmore, fun b hb c hc => ?_, fun hembed =>
      absurd hembed leads.not_isEmbedding⟩
    exact hexplored.enclosed.contains hthere hclosed (leads.unique hb ▸ hc)
  | @embed type known name embedding eq =>
    have hplace : (type.name, path) ∈ all :=
      hall _ ha _ (.inr ⟨r, hr, p, hp, embedding, by rw [name]⟩) ⟨type, known⟩
    obtain ⟨hexplored, hmore, hfinished⟩ := hvisit hplace known hpath hroom hdone (eq ▸ h)
    exact ⟨hexplored, hmore, fun b hb => absurd embedding hb.not_isEmbedding, fun _ =>
      name ▸ hfinished⟩
  | plain unlinked simple eq =>
    obtain rfl := Except.ok.inj (eq.symm.trans h)
    exact ⟨hdone, List.Subset.refl _, fun b hb => absurd hb (unlinked b), fun hp =>
      absurd hp simple⟩

theorem visit_finishes (fuel : Nat) : VisitFinishes s all fuel := by
  induction fuel with
  | zero =>
    -- The open places are fewer than all places, so the fuel is not used up.
    intro chain opened r path done done' _ _ _ hroom
    exact absurd rfl hroom.fuel_pos
  | succ fuel ih =>
    intro chain opened r path done done' ha hr hpath hroom hdone h
    rcases visit_eq_ok h with ⟨hentered, rfl⟩ | ⟨hnew, mid, hfold, rfl⟩
    · exact ⟨hdone, List.Subset.refl _, hentered⟩
    have hstart : Explored s ((r.name, path) :: opened) done :=
      ⟨hdone.settled, fun a ha b hab =>
        (hdone.enclosed a ha b hab).imp_right (List.mem_cons_of_mem _)⟩
    obtain ⟨⟨hmid, hmore⟩, hhandled, -⟩ := foldlM_collects
      (P := fun mid => Explored s ((r.name, path) :: opened) mid ∧ done ⊆ mid)
      (Q := Handled s ((r.name, path) :: opened) path) ⟨hstart, List.Subset.refl _⟩
      (fun p hp mid mid' hmid hmid' => by
        obtain ⟨hexplored, hmore, hhandled⟩ := follow_finishes hnamed hall ih ha hr hp hpath
          (hroom.enter ha hnew hpath) hmid.1 hmid'
        exact ⟨⟨hexplored, List.Subset.trans hmid.2 hmore⟩, hhandled, fun q hq => hq.mono hmore⟩)
      hfold
    -- The place is no longer open, but it is finished.
    have hmove {b : Place} (hb : b ∈ mid ∨ b ∈ (r.name, path) :: opened) :
        b ∈ (r.name, path) :: mid ∨ b ∈ opened := by
      rw [List.mem_cons] at hb ⊢
      tauto
    refine ⟨⟨⟨?_, hmid.settled⟩, ?_⟩, fun a ha => List.mem_cons_of_mem _ (hmore ha),
      .inl List.mem_cons_self⟩
    · rintro b ⟨r', hr', p, hp, hleads⟩
      obtain rfl : r = r' := Option.some.inj (hr.symm.trans hr')
      exact (hhandled p hp).reference b hleads
    · intro a ha b hab
      rcases List.mem_cons.1 ha with rfl | ha
      · obtain ⟨r', hr', p, hp, hembed, rfl⟩ := hab
        obtain rfl : r = r' := Option.some.inj (hr.symm.trans hr')
        exact hmove ((hhandled p hp).embedding hembed)
      · exact hmove (hmid.enclosed a ha b hab)

end

end ScopedConfig.Reference
