import ScopedConfig.Proofs.ReferenceWalk

/-!
# Cycles of references

What the check for cycles says about the graph. If it ends well, no place that can be reached lies
on a cycle of references; if it stops at a cycle, its chain is a walk that comes back to a path.
-/

namespace ScopedConfig.Reference

open Schema (Record Property)
open ScopedConfig.Except

variable {s : Schema} {chain opened frames : List Place} {fuel : Nat} {r : Record}
  {path : Scope.Path} {done : Finished} {p : Property} {a root last : Place} {e : Error}
  {typeName : String}

/-! ## A check that ends well -/

theorem check_eq (hnamed : s.IsNamed) (hr : s.find? typeName = some r) :
    check s typeName path =
      (visit s [(typeName, path)] (depthBound s) [] r path []).map fun _ => () := by
  have hrequire : s.require typeName = .ok r := by simp [Schema.require, hr]
  rw [check, hrequire, ← hnamed.of_find? hr]
  rfl

theorem visit_of_check (hnamed : s.IsNamed) (h : check s typeName path = .ok ()) :
    ∃ r done, s.find? typeName = some r ∧
      visit s [(typeName, path)] (depthBound s) [] r path [] = .ok done := by
  cases hr : s.find? typeName with
  | none => simp [check, Schema.require, hr, bind, Except.bind] at h
  | some r =>
    rw [check_eq hnamed hr, map_eq_ok] at h
    obtain ⟨done, hvisit, -⟩ := h
    exact ⟨r, done, rfl, hvisit⟩

/-- The walk from the root finishes all that can be reached, in an order without cycles. -/
theorem visit_root (hnamed : s.IsNamed) (hr : s.find? typeName = some r)
    (h : visit s [(typeName, path)] (depthBound s) [] r path [] = .ok done) :
    Settled s done ∧ ∀ a, Reaches s (typeName, path) a → a ∈ done := by
  have hname := hnamed.of_find? hr
  have hclosed : ClosedUnder s (places s path) := fun _ ha _ hstep hknown =>
    step_places ha hstep hknown
  have hroom : Room (places s path) [(typeName, path)] [] (depthBound s) :=
    ⟨by simp, by simp, List.nodup_nil, by simpa using length_places path⟩
  obtain ⟨hexplored, -, hfinished⟩ := visit_finishes hnamed hclosed _
    (mem_places.2 ⟨⟨r, hname ▸ hr⟩, .inl rfl⟩) (hname ▸ hr) (by simp) hroom
    ⟨by simp [Settled], by simp [Enclosed]⟩ h
  rw [hname] at hfinished
  have hroot : (typeName, path) ∈ done := hfinished.resolve_right List.not_mem_nil
  refine ⟨hexplored.settled, fun a ha => ?_⟩
  exact hexplored.settled.reaches
    (fun c hc => hexplored.enclosed.contains hroot (by simp) hc) ha a .refl

theorem not_onReferenceCycle (hnamed : s.IsNamed) (h : check s typeName path = .ok ())
    (ha : Reaches s (typeName, path) a) : ¬OnReferenceCycle s a := by
  obtain ⟨r, done, hr, hvisit⟩ := visit_of_check hnamed h
  obtain ⟨hsettled, hdone⟩ := visit_root hnamed hr hvisit
  rintro ⟨b, c, hab, hbc, hca⟩
  exact hsettled.no_return (hdone b (ha.trans hab)) hbc (hca.trans hab)

/-! ## A check that stops -/

/-- The chain is that of a walk which comes back to a path, or a property dangles. -/
def Stops (s : Schema) (root : Place) (e : Error) : Prop :=
  (∃ frames last, Walk s root frames last ∧ ClosesLoop (root :: frames) ∧
    e = .cycle (root :: frames)) ∨
  ∃ r ∈ s.records, ∃ p ∈ r.properties, Dangles s p e

/-- A visit at the end of a walk stops for one of the known reasons. -/
def VisitStops (s : Schema) (root : Place) (fuel : Nat) : Prop :=
  ∀ {frames opened : List Place} {r : Record} {path : Scope.Path} {done : Finished} {e : Error},
    Walk s root frames (r.name, path) → s.find? r.name = some r →
    visit s (root :: frames) fuel opened r path done = .error e → Stops s root e

theorem follow_stops (hnamed : s.IsNamed) (hvisit : VisitStops s root fuel)
    (walk : Walk s root frames (r.name, path)) (hr : s.find? r.name = some r)
    (hp : p ∈ r.properties) (h : follow s (root :: frames) fuel opened path done p = .error e) :
    Stops s root e := by
  cases follow_cases hnamed (root :: frames) fuel opened path done p with
  | dangles reason eq =>
    obtain rfl := Except.error.inj (eq.symm.trans h)
    exact .inr ⟨r, Schema.mem_records hr, p, hp, reason⟩
  | loop leads old eq =>
    obtain rfl := Except.error.inj (eq.symm.trans h)
    exact .inl ⟨_, _, walk.refer ⟨r, hr, p, hp, leads⟩, ⟨root :: frames, _, rfl, old⟩, rfl⟩
  | refer known leads _ eq => exact hvisit (walk.refer ⟨r, hr, p, hp, leads⟩) known (eq ▸ h)
  | embed known name embedding eq =>
    exact hvisit (walk.embed ⟨r, hr, p, hp, embedding, by rw [name]⟩) known (eq ▸ h)
  | plain _ _ eq => cases eq.symm.trans h

theorem visit_stops (hnamed : s.IsNamed) (fuel : Nat) : VisitStops s root fuel := by
  induction fuel with
  | zero =>
    intro frames opened r path done e _ _ h
    cases h
  | succ fuel ih =>
    intro frames opened r path done e walk hr h
    rw [visit_succ] at h
    split at h
    · cases h
    · rcases bind_eq_error.1 h with h | ⟨_, -, h⟩
      · obtain ⟨p, hp, done', h⟩ := foldlM_eq_error h
        exact follow_stops hnamed ih walk hr hp h
      · cases h

theorem check_stops (hnamed : s.IsNamed) (hr : s.find? typeName = some r)
    (h : check s typeName path = .error e) : Stops s (typeName, path) e := by
  rw [check_eq hnamed hr, map_eq_error] at h
  have hname := hnamed.of_find? hr
  exact visit_stops hnamed _ (hname ▸ Walk.start) (hname ▸ hr) h

/-! ## The verdict -/

/-- A check that ends well means that no place in reach lies on a cycle of references. A check that
stops at a cycle gives the chain of a walk from the root, and this comes back to a path. -/
theorem check_finds_cycles (hnamed : s.IsNamed) (typeName : String) (path : Scope.Path) :
    (check s typeName path = .ok () →
      ∀ a, Reaches s (typeName, path) a → ¬OnReferenceCycle s a) ∧
    ∀ chain, check s typeName path = .error (.cycle chain) →
      ∃ frames last, chain = (typeName, path) :: frames ∧
        Walk s (typeName, path) frames last ∧ ClosesLoop chain := by
  refine ⟨fun h a ha => not_onReferenceCycle hnamed h ha, fun chain h => ?_⟩
  obtain ⟨r, hr⟩ : ∃ r, s.find? typeName = some r := by
    cases hr : s.find? typeName with
    | some r => exact ⟨r, rfl⟩
    | none => simp [check, Schema.require, hr, bind, Except.bind] at h
  rcases check_stops hnamed hr h with ⟨frames, last, walk, loop, hchain⟩ | ⟨_, _, p, -, hdangles⟩
  · obtain rfl := Error.cycle.inj hchain
    exact ⟨frames, last, rfl, walk, loop⟩
  · rcases dangles_error hdangles with ⟨fault, hfault⟩ | ⟨fault, hfault⟩ <;> cases hfault

end ScopedConfig.Reference

namespace ScopedConfig.Sample

open Schema Reference

def link (name target : String) : Property := (Property.simple name "string").referTo { target }

/-- A class whose server, which stands in the class itself, needs a database. -/
def linked (database : List Property) : Schema :=
  ((Schema.empty.insert { name := "App", properties := [.complex "server" "Server"] }).insert
    { name := "Server", properties := [link "database" "Db"] }).insert
    { name := "Db", properties := database }

def appPath : Scope.Path :=
  ⟨[.withProperty "class" "name" "App", .named "default"], by decide⟩

def dbPath : Scope.Path :=
  ⟨[.withProperty "class" "name" "Db", .named "default"], by decide⟩

theorem linked_cycles_found :
    (check (linked []) "App" appPath = .ok () ∧
      ¬OnReferenceCycle (linked []) ("Server", appPath)) ∧
    check (linked [link "owner" "App"]) "App" appPath =
      .error (.cycle [("App", appPath), ("Db", dbPath), ("App", appPath)]) ∧
    ClosesLoop [("App", appPath), ("Db", dbPath), ("App", appPath)] := by
  have hembeds : Embeds (linked []) ("App", appPath) ("Server", appPath) :=
    ⟨_, rfl, _, List.mem_singleton_self _, ⟨rfl, rfl, rfl⟩, rfl⟩
  have hok : check (linked []) "App" appPath = .ok () := by decide +kernel
  have herror : check (linked [link "owner" "App"]) "App" appPath =
      .error (.cycle [("App", appPath), ("Db", dbPath), ("App", appPath)]) := by decide +kernel
  refine ⟨⟨hok, (check_finds_cycles (by decide +kernel) "App" appPath).1 hok _ ?_⟩, herror, ?_⟩
  · exact .single (.inr hembeds)
  · obtain ⟨frames, last, -, -, hloop⟩ :=
      (check_finds_cycles (by decide +kernel) "App" appPath).2 _ herror
    exact hloop

end ScopedConfig.Sample
