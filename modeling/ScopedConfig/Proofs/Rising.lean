import Mathlib.Logic.Relation
import ScopedConfig.Proofs.Kindred
import ScopedConfig.Proofs.Position
import ScopedConfig.Proofs.Run

/-!
# Versions above a change

The version of a node moves if that of a node below it does. Only sets can stand in the way: their
items are matched by keys, and the first item with a key stands for all of them, but their content
is compared by the fingerprints of all items.
-/

namespace ScopedConfig

namespace Stamp

open Schema Node

/-! ## Matched nodes -/

/-- A node of a stamped tree, what the schema tells about it, and the node of the previous snapshot
that it was matched with. -/
structure Matched where
  role : Role
  before : Option Node
  node : Node

namespace Matched

variable {s : Schema} {target : Scope.Path} {x y : Matched}

/-- From a node to one that it holds, which is matched by its name, position or key. -/
inductive Holds (s : Schema) : Matched → Matched → Prop where
  | property {role : Role} {before : Option Node} {n child : Node} {name : String}
    (h : n.property? name = some child) :
    Holds s ⟨role, before, n⟩
      ⟨propertyRole (recordOf s role n) name, before.bind fun p => p.property? name, child⟩
  | item {role : Role} {before : Option Node} {info : Info} {own : List Node} {n : Node} {i : Nat}
    (h : own[i]? = some n) :
    Holds s ⟨role, before, .list info (some own)⟩
      ⟨itemRole s role n, ((before.bind Node.items?).getD [])[i]?, n⟩
  | member {role : Role} {before : Option Node} {info : Info} {own : List Node} {n : Node}
    (h : n ∈ own) :
    Holds s ⟨role, before, .set info (some own)⟩
      ⟨itemRole s role n, withKey s role (before.bind Node.items?) (keyOf s role n), n⟩
  | entry {role : Role} {before : Option Node} {n child : Node} {key : String}
    (h : (n.entries?.bind fun es => es.lookup key) = some child) :
    Holds s ⟨role, before, n⟩
      ⟨itemRole s role child, before.bind fun p => p.entries?.bind fun es => es.lookup key, child⟩

/-- The second node is the first or stands somewhere below it. -/
abbrev Reaches (s : Schema) : Matched → Matched → Prop := Relation.ReflTransGen (Holds s)

/-- The second node stands somewhere below the first. -/
abbrev Above (s : Schema) : Matched → Matched → Prop := Relation.TransGen (Holds s)

theorem holds_complex {role : Role} {before : Option Node} {info : Info}
    {own : List (String × Node)} {declared : List String}
    (h : Holds s ⟨role, before, .complex info own declared⟩ y) :
    ∃ e ∈ own, y = ⟨propertyRole (recordOf s role (.complex info own declared)) e.1,
      before.bind fun p => p.property? e.1, e.2⟩ := by
  cases h with
  | property hchild => exact ⟨_, Keyed.mem_of_lookup hchild, rfl⟩
  | entry hchild => cases hchild

theorem holds_simple {role : Role} {before : Option Node} {info : Info} {text : Option String} :
    ¬Holds s ⟨role, before, .simple info text⟩ y := by
  rintro (hchild | _ | _ | hchild) <;> cases hchild

/-- The node is new or has another version than the one it was matched with. -/
def Moved (x : Matched) : Prop := ∀ p, x.before = some p → x.node.version ≠ p.version

/-- The node has the next version, if it is not new. -/
def Raised (x : Matched) : Prop := ∀ p, x.before = some p → x.node.version = p.version + 1

/-- The node has the content of the one it was matched with. -/
def Unchanged (x : Matched) : Prop := ∃ p, x.before = some p ∧ p.sameContent x.node = true

/-- All versions above a node that has moved are raised. -/
def VersionsRise (s : Schema) (root : Matched) : Prop :=
  ∀ x y, Reaches s root x → Above s x y → y.Moved → x.Raised

/-! ## Stamps -/

/-- The node was stamped against the one it is matched with. -/
def Stamped (s : Schema) (target : Scope.Path) (x : Matched) : Prop :=
  ∃ ancestor n, x.node = stamp s target x.role x.before ancestor n

theorem Stamped.holds (h : x.Stamped s target) (hxy : Holds s x y) : y.Stamped s target := by
  obtain ⟨role, before, node⟩ := x
  obtain ⟨ancestor, n, rfl : node = stamp s target role before ancestor n⟩ := h
  generalize hnode : stamp s target role before ancestor n = node at hxy
  cases hxy with
  | property hchild =>
    rw [← hnode, property?_stamp] at hchild
    obtain ⟨given, -, rfl⟩ := Option.map_eq_some_iff.1 hchild
    exact ⟨_, given, by rw [← hnode, recordOf_stamp]⟩
  | item hitem =>
    obtain ⟨above, given, rfl⟩ := eq_of_stamp_list hnode
    rw [getElem?_stampList] at hitem
    obtain ⟨item, -, rfl⟩ := Option.map_eq_some_iff.1 hitem
    exact ⟨_, item, by rw [itemRole_stamp]⟩
  | member hmem =>
    obtain ⟨above, given, rfl⟩ := eq_of_stamp_set hnode
    obtain ⟨item, -, rfl⟩ := mem_stampSet hmem
    exact ⟨_, item, by rw [itemRole_stamp, keyOf_stamp]⟩
  | entry hchild =>
    rw [← hnode, lookup_entries_stamp] at hchild
    obtain ⟨given, -, rfl⟩ := Option.map_eq_some_iff.1 hchild
    exact ⟨_, given, by rw [itemRole_stamp]⟩

theorem Stamped.reaches (h : x.Stamped s target) (hxy : Reaches s x y) : y.Stamped s target := by
  induction hxy with
  | refl => exact h
  | tail _ hstep ih => exact ih.holds hstep

theorem Stamped.version (h : x.Stamped s target) :
    x.node.version = versionAfter x.before x.node := by
  obtain ⟨ancestor, n, hn⟩ := h
  rw [hn, version_stamp]
  cases x.before with
  | none => rfl
  | some p => simp only [versionAfter, sameContent_stamp]

theorem Stamped.version_unchanged (h : x.Stamped s target) {p : Node} (hp : x.before = some p)
    (hsame : p.sameContent x.node = true) : x.node.version = p.version := by
  rw [h.version, hp, versionAfter, if_pos hsame]

theorem Stamped.version_changed (h : x.Stamped s target) {p : Node} (hp : x.before = some p)
    (hchanged : ¬x.Unchanged) : x.node.version = p.version + 1 := by
  rw [h.version, hp, versionAfter, if_neg fun hsame => hchanged ⟨p, hp, hsame⟩]

theorem Stamped.moved_iff (h : x.Stamped s target) : x.Moved ↔ ¬x.Unchanged := by
  constructor
  · rintro hmoved ⟨p, hp, hsame⟩
    exact hmoved p hp (h.version_unchanged hp hsame)
  · intro hchanged p hp
    rw [h.version_changed hp hchanged]
    omega

theorem Stamped.raised_iff (h : x.Stamped s target) : x.Raised ↔ ¬x.Unchanged := by
  constructor
  · rintro hraised ⟨p, hp, hsame⟩
    have hversion := hraised p hp
    rw [h.version_unchanged hp hsame] at hversion
    omega
  · exact fun hchanged p hp => h.version_changed hp hchanged

/-- It is enough to look one step below: what an unchanged node holds has to be unchanged. -/
theorem Stamped.versionsRise_iff {root : Matched} (h : root.Stamped s target) :
    VersionsRise s root ↔
      ∀ x y, Reaches s root x → Holds s x y → x.Unchanged → y.Unchanged := by
  constructor
  · intro hrise x y hx hxy hunchanged
    by_contra hchanged
    have hmoved := ((h.reaches hx).holds hxy).moved_iff.2 hchanged
    exact (h.reaches hx).raised_iff.1 (hrise x y hx (.single hxy) hmoved) hunchanged
  · intro hstep x y hx hxy hmoved
    -- Down from an unchanged node, every step keeps what is unchanged.
    have hkept {y : Matched} (hxy : Above s x y) (hunchanged : x.Unchanged) : y.Unchanged := by
      induction hxy with
      | single hxy => exact hstep _ _ hx hxy hunchanged
      | tail hxb hbc ih => exact hstep _ _ (hx.trans hxb.to_reflTransGen) hbc ih
    have hy := h.reaches (hx.trans hxy.to_reflTransGen)
    exact (h.reaches hx).raised_iff.2 (mt (hkept hxy) (hy.moved_iff.1 hmoved))

/-! ## One step below -/

/-- Names and keys are in order on both sides. -/
structure Ordered (x : Matched) : Prop where
  before : ∀ p, x.before = some p → p.isOrdered = true
  node : x.node.isOrdered = true

theorem items_before_ordered {before : Option Node}
    (h : ∀ p, before = some p → p.isOrdered = true) :
    ∀ n ∈ (before.bind Node.items?).getD [], n.isOrdered = true := by
  cases before with
  | none => simp
  | some p => exact items_ordered (h p rfl)

theorem Ordered.holds (h : x.Ordered) (hxy : Holds s x y) : y.Ordered := by
  have child {role : Role} {before : Option Node} {n child : Node} {role' : Role} (step : Step)
      (h : Ordered ⟨role, before, n⟩) (hchild : n.child? step = some child) :
      Ordered ⟨role', before.bind fun p => p.child? step, child⟩ := by
    refine ⟨fun c hc => ?_, child?_ordered h.node hchild⟩
    obtain ⟨p, hp, hc⟩ := Option.bind_eq_some_iff.1 hc
    exact child?_ordered (h.before p hp) hc
  cases hxy with
  | @property _ _ _ _ name hchild => exact child (.property name) h hchild
  | @entry _ _ _ _ key hchild => exact child (.entry key) h hchild
  | item hitem =>
    exact ⟨fun c hc => items_before_ordered h.before c (List.mem_of_getElem? hc),
      items_ordered h.node _ (List.mem_of_getElem? hitem)⟩
  | member hmem =>
    exact ⟨fun c hc => items_before_ordered h.before c (List.mem_of_find?_eq_some hc),
      items_ordered h.node _ hmem⟩

theorem Ordered.reaches (h : x.Ordered) (hxy : Reaches s x y) : y.Ordered := by
  induction hxy with
  | refl => exact h
  | tail _ hstep ih => exact ih.holds hstep

theorem Unchanged.holds (hordered : x.Ordered) (hkind : x.node.kind ≠ .set) (h : x.Unchanged)
    (hxy : Holds s x y) : y.Unchanged := by
  have child {role role' : Role} {before : Option Node} {n child : Node} (step : Step)
      (hordered : Ordered ⟨role, before, n⟩) (h : Unchanged ⟨role, before, n⟩)
      (hchild : n.child? step = some child) :
      Unchanged ⟨role', before.bind fun p => p.child? step, child⟩ := by
    obtain ⟨p, hp, hsame⟩ := h
    obtain ⟨c, hc, hsame⟩ :=
      sameContent_child? (hordered.before p hp) hordered.node hsame hchild
    exact ⟨c, Option.bind_eq_some_iff.2 ⟨p, hp, hc⟩, hsame⟩
  cases hxy with
  | @property _ _ _ _ name hchild => exact child (.property name) hordered h hchild
  | @entry _ _ _ _ key hchild => exact child (.entry key) hordered h hchild
  | member => exact absurd rfl hkind
  | item hitem =>
    obtain ⟨p, rfl, hsame⟩ := h
    have hp := hordered.before p rfl
    obtain ⟨j, others, rfl, hitems⟩ :=
      eq_of_sameContent_list (sameContent_symm hp hordered.node hsame)
    obtain ⟨m, hm, hsame⟩ := sameItems_getElem? hitems hitem
    exact ⟨m, hm, sameContent_symm (items_ordered hordered.node _ (List.mem_of_getElem? hitem))
      (items_ordered hp m (List.mem_of_getElem? hm)) hsame⟩

/-! ## Sets -/

def earlier (x : Matched) : List Node := (x.before.bind Node.items?).getD []

def items (x : Matched) : List Node := x.node.items?.getD []

/-- A set with the content of the set it was matched with. -/
def UnchangedSet (x : Matched) : Prop := x.node.kind = .set ∧ x.Unchanged

/-- Items with one fingerprint are of the same kinds. -/
def KeepsKinds (x : Matched) : Prop :=
  ∀ a ∈ x.earlier, ∀ b ∈ x.items, a.fingerprint = b.fingerprint → a.kindred b = true

/-- Earlier items with one key have the same content. -/
def KeysTell (s : Schema) (x : Matched) : Prop :=
  ∀ a ∈ x.earlier, ∀ b ∈ x.earlier, keyOf s x.role a = keyOf s x.role b → a.sameContent b = true

theorem UnchangedSet.fingerprints (hordered : x.Ordered) (h : x.UnchangedSet) :
    (∀ n ∈ x.items, ∃ m ∈ x.earlier, m.fingerprint = n.fingerprint) ∧
      ∀ m ∈ x.earlier, ∃ n ∈ x.items, n.fingerprint = m.fingerprint := by
  obtain ⟨role, before, node⟩ := x
  obtain ⟨hkind, p, rfl, hsame⟩ := h
  have hback := sameContent_symm (hordered.before p rfl) hordered.node hsame
  cases node with
  | simple | complex | list | map => cases hkind
  | set info own =>
    cases own with
    | none =>
      obtain ⟨j, rfl⟩ := eq_of_sameContent_absentSet hback
      exact ⟨fun _ hn => absurd hn List.not_mem_nil, fun _ hm => absurd hm List.not_mem_nil⟩
    | some own =>
      obtain ⟨j, others, rfl, hparts⟩ := eq_of_sameContent_set hback
      exact ⟨fun n hn => mem_of_sortParts hparts hn, fun m hm => mem_of_sortParts hparts.symm hm⟩

theorem holds_item {n : Node} (hkind : x.node.kind = .set) (hn : n ∈ x.items) :
    Holds s x ⟨itemRole s x.role n, withKey s x.role (x.before.bind Node.items?) (keyOf s x.role n),
      n⟩ := by
  obtain ⟨role, before, node⟩ := x
  cases node with
  | simple | complex | list | map => cases hkind
  | set info own =>
    cases own with
    | none => cases hn
    | some own => exact .member hn

theorem eq_of_holds_set (hkind : x.node.kind = .set) (hxy : Holds s x y) :
    ∃ n ∈ x.items, y = ⟨itemRole s x.role n,
      withKey s x.role (x.before.bind Node.items?) (keyOf s x.role n), n⟩ := by
  cases hxy with
  | member hmem => exact ⟨_, hmem, rfl⟩
  | item => cases hkind
  | @property role before n child name hchild =>
    cases n with
    | set => cases hchild
    | simple | complex | list | map => cases hkind
  | @entry role before n child key hchild =>
    cases n with
    | set => cases hchild
    | simple | complex | list | map => cases hkind

/-- The items of an unchanged set are unchanged exactly if the keys tell the earlier items apart. -/
theorem UnchangedSet.items_iff (hordered : x.Ordered) (h : x.UnchangedSet) (hkinds : x.KeepsKinds) :
    (∀ y, Holds s x y → y.Unchanged) ↔ x.KeysTell s := by
  obtain ⟨hforth, hback⟩ := h.fingerprints hordered
  have hearlier := items_before_ordered hordered.before
  have hitems : ∀ n ∈ x.items, n.isOrdered = true := items_ordered hordered.node
  constructor
  · intro hunchanged
    -- The first item with the key of an earlier one has its content.
    have first {c : Node} (hc : c ∈ x.earlier) :
        ∃ m ∈ x.earlier, withKey s x.role (x.before.bind Node.items?) (keyOf s x.role c) = some m ∧
          m.sameContent c = true := by
      obtain ⟨n, hn, hfingerprint⟩ := hback c hc
      obtain ⟨m, hm, hsame⟩ := hunchanged _ (holds_item h.1 hn)
      have hcn := sameContent_of_fingerprint (hitems n hn) hfingerprint.symm
        (hkinds c hc n hn hfingerprint.symm)
      have hnc := sameContent_symm (hearlier c hc) (hitems n hn) hcn
      exact ⟨m, List.mem_of_find?_eq_some hm, keyOf_congr hfingerprint ▸ hm,
        sameContent_trans hsame hnc⟩
    intro a ha b hb hkey
    obtain ⟨m, hm, hfound, hma⟩ := first ha
    obtain ⟨m', -, hfound', hmb⟩ := first hb
    rw [← hkey, hfound] at hfound'
    obtain rfl := Option.some.inj hfound'
    exact sameContent_trans (sameContent_symm (hearlier m hm) (hearlier a ha) hma) hmb
  · intro hkeys y hxy
    obtain ⟨n, hn, rfl⟩ := eq_of_holds_set h.1 hxy
    obtain ⟨c, hc, hfingerprint⟩ := hforth n hn
    obtain ⟨m, hm, hfound, hkey⟩ := @withKey_of_mem s x.role _ _ hc
    refine ⟨m, keyOf_congr hfingerprint ▸ hfound, ?_⟩
    exact sameContent_trans (hkeys m hm c hc hkey)
      (sameContent_of_fingerprint (hitems n hn) hfingerprint (hkinds c hc n hn hfingerprint))

/-- The result of stamping for a save, matched with the previous snapshot. -/
def ofSave (s : Schema) (type : Schema.Record) (previous : Option Node) (current : Node)
    (ancestor : Option Node) (target : Scope.Path) : Matched :=
  ⟨.type type, previous, forSave s type previous current ancestor target⟩

end Matched

open Matched

/-- A node that has moved raises the versions of all nodes above it, in every snapshot that is
stamped for a save and in which absent values of equal items keep their kinds, exactly if the keys
of the items tell the contents of all unchanged sets apart. -/
theorem versions_rise_iff {s : Schema} {type : Schema.Record} {previous ancestor : Option Node}
    {current : Node} {target : Scope.Path}
    (hprevious : ∀ p, previous = some p → p.isOrdered = true) (hcurrent : current.isOrdered = true)
    (hkinds : ∀ x, Reaches s (ofSave s type previous current ancestor target) x →
      x.UnchangedSet → x.KeepsKinds) :
    VersionsRise s (ofSave s type previous current ancestor target) ↔
      ∀ x, Reaches s (ofSave s type previous current ancestor target) x →
        x.UnchangedSet → x.KeysTell s := by
  have hstamped : (ofSave s type previous current ancestor target).Stamped s target :=
    ⟨ancestor, current, rfl⟩
  have hordered : (ofSave s type previous current ancestor target).Ordered :=
    ⟨hprevious, (isOrdered_stamp ..).trans hcurrent⟩
  rw [hstamped.versionsRise_iff]
  constructor
  · intro hstep x hx hset
    exact (hset.items_iff (hordered.reaches hx) (hkinds x hx hset)).1
      fun y hxy => hstep x y hx hxy hset.2
  · intro hkeys x y hx hxy hunchanged
    by_cases hkind : x.node.kind = .set
    · have hset : x.UnchangedSet := ⟨hkind, hunchanged⟩
      exact (hset.items_iff (hordered.reaches hx) (hkinds x hx hset)).2 (hkeys x hx hset) y hxy
    · exact hunchanged.holds (hordered.reaches hx) hkind hxy

end Stamp

namespace Sample

open Schema (Record Property)
open Stamp Stamp.Matched

def machine : Record :=
  { name := "Machine"
    identity := some "host"
    properties := [.simple "host" "string", .simple "port" "string"] }

def fleet : Record :=
  { name := "App"
    properties := [.set "machines" .complex "Machine", .set "tags" .simple "string"] }

def fleetSchema : Schema := .insert (.insert .empty fleet) machine

def word (version : Int) (value : String) : Node :=
  .simple { definedAt := global, typeName := "string", version } (some value)

/-- A machine whose port has the version of the whole. -/
def machineAt (version : Int) (host port : String) : Node :=
  .complex { definedAt := global, typeName := "Machine", version }
    [("host", word 1 host), ("port", word version port)] ["host", "port"]

def colours (version : Int) : Node :=
  .set { definedAt := global, typeName := "string", version }
    (some [word version "blue", word version "green"])

/-- A fleet whose machines have the version of the whole. -/
def fleetOf (version : Int) (machines : List Node) : Node :=
  .complex { definedAt := global, typeName := "App", version }
    [("machines", .set { definedAt := global, typeName := "Machine", version } (some machines)),
      ("tags", colours 1)] ["machines", "tags"]

section
variable {s : Schema} {role : Stamp.Role} {before : Option Node} {version : Int} {x : Matched}

theorem kind_of_reaches_word {value : String}
    (h : Reaches s ⟨role, before, word version value⟩ x) : x.node.kind = .simple := by
  rcases h.cases_head with rfl | ⟨y, hy, -⟩
  · rfl
  · exact absurd hy holds_simple

theorem kind_of_reaches_machine {host port : String}
    (h : Reaches s ⟨role, before, machineAt version host port⟩ x) : x.node.kind ≠ .set := by
  rcases h.cases_head with rfl | ⟨y, hy, hyx⟩
  · simp [machineAt, Node.kind]
  · obtain ⟨e, he, rfl⟩ := holds_complex hy
    simp only [List.mem_cons, List.not_mem_nil, or_false] at he
    rcases he with rfl | rfl <;> simp [kind_of_reaches_word hyx]

end

/-- The set of the machines, matched with the one before. -/
def matchedMachines (version : Int) (before own : List Node) : Matched :=
  ⟨.property (.set "machines" .complex "Machine"),
    some (.set { definedAt := global, typeName := "Machine", version := 1 } (some before)),
    .set { definedAt := global, typeName := "Machine", version } (some own)⟩

def matchedTags : Matched :=
  ⟨.property (.set "tags" .simple "string"), some (colours 1), colours 1⟩

theorem set_of_reaches_fleet {version : Int} {before own : List Node} {x : Matched}
    (hmachines : ∀ n ∈ own, ∃ v host port, n = machineAt v host port)
    (h : Reaches fleetSchema ⟨.type fleet, some (fleetOf 1 before), fleetOf version own⟩ x)
    (hkind : x.node.kind = .set) : x = matchedMachines version before own ∨ x = matchedTags := by
  rcases h.cases_head with rfl | ⟨y, hy, hyx⟩
  · cases hkind
  obtain ⟨e, he, rfl⟩ := holds_complex hy
  simp only [List.mem_cons, List.not_mem_nil, or_false] at he
  rcases he with rfl | rfl
  · rcases hyx.cases_head with rfl | ⟨z, hz, hzx⟩
    · exact .inl rfl
    · obtain ⟨n, hn, rfl⟩ := eq_of_holds_set rfl hz
      obtain ⟨v, host, port, rfl⟩ := hmachines n hn
      exact absurd hkind (kind_of_reaches_machine hzx)
  · rcases hyx.cases_head with rfl | ⟨z, hz, hzx⟩
    · exact .inr rfl
    · obtain ⟨n, hn, rfl⟩ := eq_of_holds_set rfl hz
      have hword : ∃ value, n = word 1 value := by
        simp only [items, Node.items?, colours, Option.getD_some, List.mem_cons, List.not_mem_nil,
          or_false] at hn
        rcases hn with rfl | rfl <;> exact ⟨_, rfl⟩
      obtain ⟨value, rfl⟩ := hword
      rw [kind_of_reaches_word hzx] at hkind
      cases hkind

/-- Another port of one machine, and the same tags. -/
def editedFleet : Matched :=
  ofSave fleetSchema fleet (some (fleetOf 1 [machineAt 1 "a" "80", machineAt 1 "b" "80"]))
    (fleetOf 1 [machineAt 1 "a" "81", machineAt 1 "b" "80"]) none global

theorem editedFleet_eq : editedFleet =
    ⟨.type fleet, some (fleetOf 1 [machineAt 1 "a" "80", machineAt 1 "b" "80"]),
      fleetOf 2 [machineAt 2 "a" "81", machineAt 1 "b" "80"]⟩ := rfl

theorem editedFleet_unchanged {x : Matched} (hx : Reaches fleetSchema editedFleet x)
    (hset : x.UnchangedSet) : x = matchedTags := by
  rw [editedFleet_eq] at hx
  rcases set_of_reaches_fleet (by simp) hx hset.1 with rfl | rfl
  · obtain ⟨p, hp, hsame⟩ := hset.2
    cases hp
    exact absurd hsame (by decide)
  · rfl

/-- The port moves, and with it the machine, the set and the fleet. -/
theorem edited_port_raises :
    ((∀ p, editedFleet.before = some p → p.isOrdered = true) ∧
      (∀ x, Reaches fleetSchema editedFleet x → x.UnchangedSet → x.KeepsKinds) ∧
      ∀ x, Reaches fleetSchema editedFleet x → x.UnchangedSet → x.KeysTell fleetSchema) ∧
    VersionsRise fleetSchema editedFleet := by
  have hordered : ∀ p, editedFleet.before = some p → p.isOrdered = true := by
    rintro p ⟨⟩
    decide
  have hkinds : ∀ x, Reaches fleetSchema editedFleet x → x.UnchangedSet → x.KeepsKinds := by
    intro x hx hset
    obtain rfl := editedFleet_unchanged hx hset
    unfold KeepsKinds
    decide
  have hkeys : ∀ x, Reaches fleetSchema editedFleet x → x.UnchangedSet →
      x.KeysTell fleetSchema := by
    intro x hx hset
    obtain rfl := editedFleet_unchanged hx hset
    unfold KeysTell
    decide
  exact ⟨⟨hordered, hkinds, hkeys⟩, (versions_rise_iff hordered (by decide) hkinds).2 hkeys⟩

/-- The second of two machines with one name is compared with the first, so it moves whenever the
fleet is saved, and the fleet does not. -/
theorem shared_name_raises_nothing :
    ¬∀ (s : Schema) (type : Record) (previous : Option Node) (current : Node)
        (ancestor : Option Node) (target : Scope.Path),
      (∀ p, previous = some p → p.isOrdered = true) → current.isOrdered = true →
      VersionsRise s (ofSave s type previous current ancestor target) := by
  intro h
  have hsaved : ofSave fleetSchema fleet
        (some (fleetOf 1 [machineAt 1 "a" "80", machineAt 1 "a" "81"]))
        (fleetOf 1 [machineAt 1 "a" "80", machineAt 1 "a" "81"]) none global =
      ⟨.type fleet, some (fleetOf 1 [machineAt 1 "a" "80", machineAt 1 "a" "81"]),
        fleetOf 1 [machineAt 1 "a" "80", machineAt 2 "a" "81"]⟩ := rfl
  have hrise := h fleetSchema fleet
    (some (fleetOf 1 [machineAt 1 "a" "80", machineAt 1 "a" "81"]))
    (fleetOf 1 [machineAt 1 "a" "80", machineAt 1 "a" "81"]) none global
    (by rintro p ⟨⟩; decide) (by decide)
  rw [hsaved] at hrise
  have hraised := hrise _ _ .refl (.tail (.single (@Holds.property _ _ _ _ _ "machines" rfl))
    (.member (List.mem_cons_of_mem _ List.mem_cons_self))) (by
      rintro p ⟨⟩
      decide) _ rfl
  exact absurd hraised (by decide)

end Sample

end ScopedConfig
