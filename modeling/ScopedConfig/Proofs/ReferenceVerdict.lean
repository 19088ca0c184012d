import ScopedConfig.Proofs.ReferenceCycles

/-!
# The verdict on a schema

A valid schema whose references resolve is accepted, or refused with a cycle. It is accepted if no
chain comes back to a path, and refused if some chain comes back to a place. Since a finished place
is not entered again from another chain, the order of the properties may decide between these.
-/

namespace ScopedConfig

open ScopedConfig.Except

namespace Reference

open Schema (Record Property)

variable {s s' : Schema} {opened frames : List Place} {fuel : Nat} {r : Record}
  {path : Scope.Path} {done done' : Finished} {p : Property} {a b root last : Place} {e : Error}
  {typeName : String} {strategies : Strategies}

/-! ## Schemas without loose ends -/

/-- Each reference has a path. -/
def Resolves (s : Schema) : Prop :=
  ∀ r ∈ s.records, ∀ p ∈ r.properties, ∀ reference, p.reference = some reference →
    ∃ path, resolve s reference = .ok path

instance (s : Schema) : Decidable (Resolves s) :=
  decidable_of_iff
    (∀ r ∈ s.records, ∀ p ∈ r.properties, ∀ reference ∈ p.reference,
      (resolve s reference).isOk = true) <| by
    refine forall₂_congr fun r _ => forall₂_congr fun p _ => forall₂_congr fun reference _ => ?_
    cases resolve s reference <;> simp [Except.isOk, Except.toBool]

/-- No property dangles. -/
def Connected (s : Schema) : Prop := ∀ r ∈ s.records, ∀ p ∈ r.properties, ∀ e, ¬Dangles s p e

theorem connected_of_validate (hvalid : s.validate strategies = .ok ()) (hresolves : Resolves s) :
    Connected s := by
  rintro r hr p hp e (⟨reference, href, htarget | hpath⟩ | ⟨hembedding, htype⟩)
  · obtain ⟨target, hfind⟩ := Schema.target_of_validate hvalid hr hp href
    simp [Schema.require, hfind] at htarget
  · obtain ⟨path, hok⟩ := hresolves r hr p hp reference href
    cases hok.symm.trans hpath
  · have hchecked := Schema.checked_of_check (Schema.check_of_validate hvalid hr hp)
    obtain ⟨type, hfind⟩ := hchecked.typed hembedding.2.1 hembedding.2.2
    simp [Schema.require, hfind] at htype

/-! ## Chains -/

/-- No chain of references from the root comes back to a path. -/
def LoopFree (s : Schema) (root : Place) : Prop :=
  ∀ frames last, Walk s root frames last → ¬ClosesLoop (root :: frames)

/-- The last place is an earlier one, at its path and of its type. -/
def ClosesCycle (chain : List Place) : Prop :=
  ∃ before last, chain = before ++ [last] ∧ last ∈ before

/-- The place is reached along a chain to which none of its references comes back. -/
def Cleared (s : Schema) (root a : Place) : Prop :=
  ∃ frames, Walk s root frames a ∧ ∀ b, Refers s a b → b.2 ∉ (root :: frames).map Prod.snd

/-- What a check makes sure of. No chain comes back to a place, and each place in reach is
cleared. -/
structure Vetted (s : Schema) (root : Place) : Prop where
  acyclic : ∀ frames last, Walk s root frames last → ¬ClosesCycle (root :: frames)
  cleared : ∀ a, Reaches s root a → Cleared s root a

/-- If references do not bring two types to one path, a chain that comes back to a path comes back
to a place. -/
theorem Vetted.loopFree (h : Vetted s root)
    (hown : ∀ a ∈ root :: targets s, ∀ b ∈ root :: targets s, a.2 = b.2 → a = b) :
    LoopFree s root := by
  rintro frames last walk ⟨before, a, hchain, hloop⟩
  have hmem {b : Place} (hb : b ∈ root :: frames) : b ∈ root :: targets s :=
    List.cons_subset_cons root walk.frames_subset hb
  obtain ⟨b, hb, hpath⟩ := List.mem_map.1 hloop
  have hsame : b = a := hown b (hmem (hchain ▸ List.mem_append_left _ hb)) a
    (hmem (hchain ▸ List.mem_append_right _ List.mem_cons_self)) hpath
  exact h.acyclic frames last walk ⟨before, a, hchain, hsame ▸ hb⟩

theorem onReferenceCycle_of_closesCycle (walk : Walk s root frames last)
    (h : ClosesCycle (root :: frames)) : ∃ a, Reaches s root a ∧ OnReferenceCycle s a := by
  obtain ⟨before, b, hchain, hb⟩ := h
  rcases List.eq_nil_or_concat' frames with rfl | ⟨earlier, c, rfl⟩
  · obtain ⟨rfl, -⟩ := List.append_inj' (show [] ++ [root] = before ++ [b] from hchain) rfl
    cases hb
  · rw [← List.cons_append] at hchain
    obtain ⟨rfl, hlast⟩ := List.append_inj' hchain rfl
    obtain rfl := List.singleton_injective hlast
    obtain ⟨a, before, hrefers⟩ := walk.last_reference
    obtain ⟨hreach, hback⟩ := before.reaches hb
    exact ⟨c, hreach, a, c, hback, hrefers, .refl⟩

/-! ## Accepted schemas -/

/-- A visit at the end of a walk that ends well clears the places that it finishes. -/
def VisitClears (s : Schema) (root : Place) (fuel : Nat) : Prop :=
  ∀ {frames opened : List Place} {r : Record} {path : Scope.Path} {done done' : Finished},
    Walk s root frames (r.name, path) → s.find? r.name = some r →
    (∀ a ∈ done, Cleared s root a) →
    visit s (root :: frames) fuel opened r path done = .ok done' → ∀ a ∈ done', Cleared s root a

theorem follow_clears (hnamed : s.IsNamed) (hvisit : VisitClears s root fuel)
    (walk : Walk s root frames (r.name, path)) (hr : s.find? r.name = some r)
    (hp : p ∈ r.properties) (hdone : ∀ a ∈ done, Cleared s root a)
    (h : follow s (root :: frames) fuel opened path done p = .ok done') :
    (∀ a ∈ done', Cleared s root a) ∧
      ∀ b, LeadsTo s p b → b.2 ∉ (root :: frames).map Prod.snd := by
  cases follow_cases hnamed (root :: frames) fuel opened path done p with
  | dangles _ eq | loop _ _ eq => cases eq.symm.trans h
  | refer known leads new eq =>
    refine ⟨hvisit (walk.refer ⟨r, hr, p, hp, leads⟩) known hdone (eq ▸ h), fun b hb => ?_⟩
    exact leads.unique hb ▸ new
  | @embed type known name embedding eq =>
    have walk : Walk s root frames (type.name, path) :=
      walk.embed ⟨r, hr, p, hp, embedding, by rw [name]⟩
    exact ⟨hvisit walk known hdone (eq ▸ h), fun b hb => absurd embedding hb.not_isEmbedding⟩
  | plain unlinked _ eq =>
    obtain rfl := Except.ok.inj (eq.symm.trans h)
    exact ⟨hdone, fun b hb => absurd hb (unlinked b)⟩

theorem visit_clears (hnamed : s.IsNamed) (fuel : Nat) : VisitClears s root fuel := by
  induction fuel with
  | zero =>
    intro frames opened r path done done' _ _ hdone h
    exact Except.ok.inj h ▸ hdone
  | succ fuel ih =>
    intro frames opened r path done done' walk hr hdone h
    rcases visit_eq_ok h with ⟨-, rfl⟩ | ⟨-, mid, hfold, rfl⟩
    · exact hdone
    obtain ⟨hmid, hnew, -⟩ := foldlM_collects
      (Q := fun p _ => ∀ b, LeadsTo s p b → b.2 ∉ (root :: frames).map Prod.snd) hdone
      (fun p hp mid mid' hmid hmid' => by
        obtain ⟨hcleared, hnew⟩ := follow_clears hnamed ih walk hr hp hmid hmid'
        exact ⟨hcleared, hnew, fun _ => id⟩)
      hfold
    refine List.forall_mem_cons.2 ⟨⟨frames, walk, ?_⟩, hmid⟩
    rintro b ⟨r', hr', p, hp, hleads⟩
    obtain rfl : r = r' := Option.some.inj (hr.symm.trans hr')
    exact hnew p hp b hleads

theorem vetted_of_check (hnamed : s.IsNamed) (h : check s typeName path = .ok ()) :
    Vetted s (typeName, path) where
  acyclic frames last walk hcycle := by
    obtain ⟨a, hreach, hcycle⟩ := onReferenceCycle_of_closesCycle walk hcycle
    exact not_onReferenceCycle hnamed h hreach hcycle
  cleared a ha := by
    obtain ⟨r, done, hr, hvisit⟩ := visit_of_check hnamed h
    have hname := hnamed.of_find? hr
    exact visit_clears hnamed _ (hname ▸ Walk.start) (hname ▸ hr) (by simp) hvisit a
      ((visit_root hnamed hr hvisit).2 a ha)

/-- A schema without loose ends is refused only for a chain that comes back to a path. -/
theorem check_of_connected (hnamed : s.IsNamed) (hconnected : Connected s)
    (hr : s.find? typeName = some r) (path : Scope.Path) :
    check s typeName path = .ok () ∨
      ∃ frames last, Walk s (typeName, path) frames last ∧
        ClosesLoop ((typeName, path) :: frames) ∧
        check s typeName path = .error (.cycle ((typeName, path) :: frames)) := by
  cases h : check s typeName path with
  | ok _ => exact .inl rfl
  | error e =>
    rcases check_stops hnamed hr h with ⟨frames, last, walk, loop, rfl⟩ | ⟨r, hr, p, hp, hdangles⟩
    · exact .inr ⟨frames, last, walk, loop, rfl⟩
    · exact absurd hdangles (hconnected r hr p hp e)

theorem check_of_loopFree (hnamed : s.IsNamed) (hconnected : Connected s)
    (hr : s.find? typeName = some r) (hfree : LoopFree s (typeName, path)) :
    check s typeName path = .ok () := by
  refine (check_of_connected hnamed hconnected hr path).resolve_right ?_
  rintro ⟨frames, last, walk, hloop, -⟩
  exact hfree frames last walk hloop

theorem check_ok_iff (hnamed : s.IsNamed) (hconnected : Connected s)
    (hr : s.find? typeName = some r)
    (hmeet : Vetted s (typeName, path) → LoopFree s (typeName, path)) :
    check s typeName path = .ok () ↔ LoopFree s (typeName, path) :=
  ⟨fun h => hmeet (vetted_of_check hnamed h), check_of_loopFree hnamed hconnected hr⟩

/-! ## The order of the properties -/

/-- The properties stand in another order. -/
def Permuted (r r' : Record) : Prop :=
  ∃ properties, properties.Perm r.properties ∧ r' = { r with properties }

/-- The same types, each with its properties in some order. -/
def Reordered (s s' : Schema) : Prop :=
  List.Forall₂ (fun e e' => e'.1 = e.1 ∧ Permuted e.2 e'.2) s.types s'.types

theorem Permuted.refl (r : Record) : Permuted r r := ⟨r.properties, .refl _, rfl⟩

theorem Permuted.symm {r r' : Record} (h : Permuted r r') : Permuted r' r := by
  obtain ⟨properties, hperm, rfl⟩ := h
  exact ⟨r.properties, hperm.symm, rfl⟩

theorem Permuted.mem_iff {r r' : Record} (h : Permuted r r') :
    p ∈ r'.properties ↔ p ∈ r.properties := by
  obtain ⟨properties, hperm, rfl⟩ := h
  exact hperm.mem_iff

theorem Permuted.name {r r' : Record} (h : Permuted r r') : r'.name = r.name := by
  obtain ⟨properties, -, rfl⟩ := h
  rfl

theorem Permuted.defaultPath {r r' : Record} (h : Permuted r r') :
    r'.defaultPath = r.defaultPath := by
  obtain ⟨properties, -, rfl⟩ := h
  rfl

namespace Reordered

theorem empty : Reordered .empty .empty := .nil

theorem insert {r' : Record} (h : Reordered s s') (hperm : Permuted r r') :
    Reordered (s.insert r) (s'.insert r') := by
  rw [Reordered] at h
  simp only [Reordered, Schema.insert, hperm.name]
  generalize s.types = types, s'.types = types' at *
  induction h with
  | nil => exact .cons ⟨rfl, hperm⟩ .nil
  | @cons first first' rest rest' hfirst hrest ih =>
    obtain ⟨key, value⟩ := first
    obtain ⟨key', value'⟩ := first'
    obtain ⟨rfl, hvalue⟩ := hfirst
    simp only [Keyed.insert]
    split
    · exact .cons ⟨rfl, hperm⟩ (.cons ⟨rfl, hvalue⟩ hrest)
    · exact .cons ⟨rfl, hperm⟩ hrest
    · exact .cons ⟨rfl, hvalue⟩ ih

theorem symm (h : Reordered s s') : Reordered s' s :=
  List.Forall₂.flip (List.Forall₂.imp (fun _ _ he => ⟨he.1.symm, he.2.symm⟩) h)

theorem mem_types (h : Reordered s s') {e : String × Record} (he : e ∈ s.types) :
    ∃ r, (e.1, r) ∈ s'.types ∧ Permuted e.2 r := by
  rw [Reordered] at h
  generalize s.types = types, s'.types = types' at *
  induction h with
  | nil => cases he
  | @cons first first' rest rest' hfirst _ ih =>
    rcases List.mem_cons.1 he with rfl | he
    · exact ⟨first'.2, hfirst.1 ▸ List.mem_cons_self, hfirst.2⟩
    · obtain ⟨r, hr, hperm⟩ := ih he
      exact ⟨r, List.mem_cons_of_mem _ hr, hperm⟩

theorem find? (h : Reordered s s') {name : String} (hr : s.find? name = some r) :
    ∃ r', s'.find? name = some r' ∧ Permuted r r' := by
  rw [Reordered] at h
  rw [Schema.find?] at hr
  simp only [Schema.find?]
  generalize s.types = types, s'.types = types' at *
  induction h with
  | nil => cases hr
  | @cons first first' rest rest' hfirst _ ih =>
    obtain ⟨key, value⟩ := first
    obtain ⟨key', value'⟩ := first'
    obtain ⟨rfl, hperm⟩ := hfirst
    rw [List.lookup_cons] at hr ⊢
    cases hkey : name == key' with
    | true =>
      simp only [hkey, Option.some.injEq] at hr ⊢
      exact ⟨value', rfl, hr ▸ hperm⟩
    | false =>
      simp only [hkey] at hr ⊢
      exact ih hr

theorem require (h : Reordered s s') (name : String) :
    (∃ r r', s.require name = .ok r ∧ s'.require name = .ok r' ∧ Permuted r r') ∨
      s'.require name = s.require name := by
  cases hr : s.find? name with
  | some r =>
    obtain ⟨r', hr', hperm⟩ := h.find? hr
    exact .inl ⟨r, r', by simp [Schema.require, hr], by simp [Schema.require, hr'], hperm⟩
  | none =>
    cases hr' : s'.find? name with
    | none => exact .inr (by simp [Schema.require, hr, hr'])
    | some r' =>
      obtain ⟨r, hr'', -⟩ := h.symm.find? hr'
      exact Option.some_ne_none r (hr''.symm.trans hr) |>.elim

theorem resolve_eq (h : Reordered s s') (reference : Schema.Reference) :
    resolve s' reference = resolve s reference := by
  rw [Reference.resolve_eq, Reference.resolve_eq]
  rcases h.require reference.target with ⟨r, r', hr, hr', hperm⟩ | hsame
  · simp only [hr, hr', bind, Except.bind, hperm.defaultPath]
  · rw [hsame]

theorem isNamed (h : Reordered s s') (hnamed : s.IsNamed) : s'.IsNamed := by
  intro e' he'
  obtain ⟨r, hr, hperm⟩ := h.symm.mem_types he'
  exact hperm.name.symm.trans (hnamed _ hr)

theorem connected (h : Reordered s s') (hconnected : Connected s) : Connected s' := by
  have hrequire {name : String} {e : Error} (he : s'.require name = .error e) :
      s.require name = .error e := by
    rcases h.require name with ⟨r, r', -, hr', -⟩ | hsame
    · cases hr'.symm.trans he
    · exact hsame ▸ he
  intro r' hr' p hp e hdangles
  obtain ⟨e', he', rfl⟩ := List.mem_map.1 hr'
  obtain ⟨r, hr, hperm⟩ := h.symm.mem_types he'
  refine hconnected r (List.mem_map_of_mem hr) p (hperm.mem_iff.2 hp) e ?_
  rcases hdangles with ⟨reference, href, hlost⟩ | ⟨hembedding, htype⟩
  · exact .inl ⟨reference, href, hlost.imp hrequire (h.resolve_eq reference ▸ ·)⟩
  · exact .inr ⟨hembedding, hrequire htype⟩

theorem refers (h : Reordered s s') (hab : Refers s a b) : Refers s' a b := by
  obtain ⟨r, hr, p, hp, reference, href, hname, hpath⟩ := hab
  obtain ⟨r', hr', hperm⟩ := h.find? hr
  exact ⟨r', hr', p, hperm.mem_iff.2 hp, reference, href, hname,
    (h.resolve_eq reference).trans hpath⟩

theorem embeds (h : Reordered s s') (hab : Embeds s a b) : Embeds s' a b := by
  obtain ⟨r, hr, p, hp, hembedding, hplace⟩ := hab
  obtain ⟨r', hr', hperm⟩ := h.find? hr
  exact ⟨r', hr', p, hperm.mem_iff.2 hp, hembedding, hplace⟩

theorem reaches (h : Reordered s s') (hab : Reaches s a b) : Reaches s' a b := by
  have hstep : ∀ a b, Step s a b → Step s' a b := fun _ _ => Or.imp h.refers h.embeds
  exact Relation.ReflTransGen.mono hstep a b hab

theorem walk (h : Reordered s s') (hwalk : Walk s root frames last) : Walk s' root frames last := by
  induction hwalk with
  | start => exact .start
  | refer _ step ih => exact ih.refer (h.refers step)
  | embed _ step ih => exact ih.embed (h.embeds step)

theorem loopFree (h : Reordered s s') (hfree : LoopFree s root) : LoopFree s' root :=
  fun frames last hwalk => hfree frames last (h.symm.walk hwalk)

theorem vetted (h : Reordered s s') (hvetted : Vetted s root) : Vetted s' root where
  acyclic frames last hwalk := hvetted.acyclic frames last (h.symm.walk hwalk)
  cleared a ha := by
    obtain ⟨frames, hwalk, hclear⟩ := hvetted.cleared a (h.symm.reaches ha)
    exact ⟨frames, h.walk hwalk, fun b hb => hclear b (h.symm.refers hb)⟩

end Reordered

/-! ## The verdict -/

/-- A valid schema whose references resolve is accepted or refused with a cycle. It is accepted if
no chain comes back to a path. If it is accepted, no chain comes back to a place, and each place in
reach has a chain to which none of its references comes back. Where these conditions meet, the
order of the properties does not matter; they do if references do not bring two types to one
path. -/
theorem check_verdict (hnamed : s.IsNamed) (hvalid : s.validate strategies = .ok ())
    (hresolves : Resolves s) (hroot : s.find? typeName = some r) (path : Scope.Path) :
    (check s typeName path = .ok () ∨ ∃ chain, check s typeName path = .error (.cycle chain)) ∧
    (LoopFree s (typeName, path) → check s typeName path = .ok ()) ∧
    (check s typeName path = .ok () → Vetted s (typeName, path)) ∧
    ((Vetted s (typeName, path) → LoopFree s (typeName, path)) →
      (check s typeName path = .ok () ↔ LoopFree s (typeName, path)) ∧
      ∀ s', Reordered s s' →
        (check s' typeName path = .ok () ↔ check s typeName path = .ok ())) ∧
    ((∀ a ∈ (typeName, path) :: targets s, ∀ b ∈ (typeName, path) :: targets s,
        a.2 = b.2 → a = b) →
      Vetted s (typeName, path) → LoopFree s (typeName, path)) := by
  have hconnected := connected_of_validate hvalid hresolves
  refine ⟨(check_of_connected hnamed hconnected hroot path).imp_right ?_,
    check_of_loopFree hnamed hconnected hroot, vetted_of_check hnamed, fun hmeet => ?_,
    fun hown h => h.loopFree hown⟩
  · rintro ⟨frames, -, -, -, h⟩
    exact ⟨_, h⟩
  · have hiff := check_ok_iff hnamed hconnected hroot hmeet
    refine ⟨hiff, fun s' hs' => ?_⟩
    obtain ⟨r', hroot', -⟩ := hs'.find? hroot
    have hmeet' (h : Vetted s' (typeName, path)) : LoopFree s' (typeName, path) :=
      hs'.loopFree (hmeet (hs'.symm.vetted h))
    rw [hiff, check_ok_iff (hs'.isNamed hnamed) (hs'.connected hconnected) hroot' hmeet']
    exact ⟨hs'.symm.loopFree, hs'.loopFree⟩

end Reference

namespace Sample

open Schema Reference

def xPath : Scope.Path :=
  ⟨[.withProperty "class" "name" "X", .named "default"], by decide⟩

def bPath : Scope.Path :=
  ⟨[.withProperty "class" "name" "B", .named "default"], by decide⟩

/-- Two chains that meet at `B`, which refers to `D`. -/
def crossing (app : List Property) (d : Property) : Schema :=
  (((Schema.empty.insert { name := "App", properties := app }).insert
    { name := "B", properties := [d] }).insert
    { name := "D" }).insert
    { name := "X", properties := [link "b" "B"] }

theorem reordered_crossing {app app' : List Property} (d : Property) (h : app'.Perm app) :
    Reordered (crossing app d) (crossing app' d) :=
  (((Reordered.empty.insert ⟨app', h, rfl⟩).insert (.refl _)).insert (.refl _)).insert (.refl _)

/-- With `D` at its own path, both orders are accepted. -/
theorem crossing_accepted :
    let s := crossing [link "b" "B", link "x" "X"] (link "d" "D")
    let s' := crossing [link "x" "X", link "b" "B"] (link "d" "D")
    LoopFree s ("App", appPath) ∧ check s' "App" appPath = .ok () := by
  intro s s'
  have hok : check s "App" appPath = .ok () := by decide +kernel
  have hvalid : s.validate .standard = .ok () := by decide +kernel
  obtain ⟨r, hroot⟩ : ∃ r, s.find? "App" = some r :=
    Option.isSome_iff_exists.1 (by decide +kernel)
  obtain ⟨-, -, -, hmeet, hown⟩ :=
    check_verdict (by decide +kernel) hvalid (by decide +kernel) hroot appPath
  obtain ⟨hiff, horder⟩ := hmeet (hown (by decide +kernel))
  exact ⟨hiff.1 hok, (horder s' (reordered_crossing _ (.swap _ _ _))).2 hok⟩

/-- With `D` at the path of `X`, the chain over `X` comes back to this path, but it is not followed
beyond `B` if `B` is finished before. -/
theorem order_decides_verdict :
    let d := (Property.simple "d" "string").referTo { target := "D", path := some xPath }
    let s := crossing [link "b" "B", link "x" "X"] d
    let s' := crossing [link "x" "X", link "b" "B"] d
    (s.validate .standard = .ok () ∧ Resolves s ∧ ∀ r ∈ s.records, r.defaultPath.isOk = true) ∧
      Reordered s s' ∧ check s "App" appPath = .ok () ∧ ¬LoopFree s ("App", appPath) ∧
      ∃ chain, check s' "App" appPath = .error (.cycle chain) := by
  intro d s s'
  have hvalid : s.validate .standard = .ok () := by decide +kernel
  have hresolves : Resolves s := by decide +kernel
  have hnamed : s'.IsNamed := by decide +kernel
  have horder : Reordered s s' := reordered_crossing d (.swap _ _ _)
  have hcycle : check s' "App" appPath =
      .error (.cycle [("App", appPath), ("X", xPath), ("B", bPath), ("D", xPath)]) := by
    decide +kernel
  refine ⟨⟨hvalid, hresolves, by decide +kernel⟩, horder, by decide +kernel, fun hfree => ?_,
    _, hcycle⟩
  have hconnected := horder.connected (connected_of_validate hvalid hresolves)
  obtain ⟨r, hroot⟩ : ∃ r, s'.find? "App" = some r :=
    Option.isSome_iff_exists.1 (by decide +kernel)
  have hok := check_of_loopFree hnamed hconnected hroot (horder.loopFree hfree)
  cases hok.symm.trans hcycle

end Sample

end ScopedConfig
