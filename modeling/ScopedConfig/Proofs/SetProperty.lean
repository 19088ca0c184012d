import ScopedConfig.CommandLine
import ScopedConfig.Proofs.SavedFile

/-!
# Setting a property

The command that sets a property changes it in the stored snapshot of one path, or stores a new
snapshot that has nothing else, or it fails. It touches no other snapshot.
-/

namespace ScopedConfig

open Scope (Path)
open ScopedConfig.Except

/-! ## The edited node -/

namespace Node

variable {n child : Node} {name : String}

theorem kind_withProperty (n : Node) (name : String) (child : Node) :
    (n.withProperty name child).kind = n.kind := by
  cases n <;> rfl

theorem property?_withProperty (hn : n.kind = .complex) (name other : String) (child : Node) :
    (n.withProperty name child).property? other =
      if other == name then some (child.withPropertyName name) else n.property? other := by
  cases n with
  | complex i own declared => exact Keyed.lookup_insert name other _ own
  | simple | list | set | map => cases hn

theorem mem_declared_withProperty (hn : n.kind = .complex) {other : String} :
    other ∈ (n.withProperty name child).declared?.getD [] ↔
      other = name ∨ other ∈ n.declared?.getD [] := by
  cases n with
  | complex i own declared => exact Keyed.mem_insertKey
  | simple | list | set | map => cases hn

theorem inOrder_withInfo (i : Info) (n : Node) : (n.withInfo i).InOrder ↔ n.InOrder := by
  cases n with
  | simple | complex | list | set => exact .rfl
  | map _ own => cases own <;> exact .rfl

theorem inOrder_withProperty (hn : n.Everywhere InOrder) (hchild : child.Everywhere InOrder) :
    (n.withProperty name child).Everywhere InOrder := by
  cases n with
  | complex i own declared =>
    obtain ⟨⟨hsorted, hdeclared⟩, hown⟩ := everywhere_complex.1 hn
    have hnamed : (child.withPropertyName name).Everywhere InOrder :=
      (everywhere_withInfo (inOrder_withInfo _ child)).2 hchild
    exact everywhere_complex.2
      ⟨⟨Keyed.sorted_insert _ _ hsorted, Keyed.pairwise_insertKey _ hdeclared⟩,
        insert_everywhere hown hnamed⟩
  | simple | list | set | map => exact hn

theorem depth_withInfo (i : Info) (n : Node) : (n.withInfo i).toJson.depth = n.toJson.depth := by
  cases n with
  | simple _ text => cases text <;> simp only [withInfo, toJson, depth_withMeta]
  | complex => simp only [withInfo, toJson, depth_withMeta]
  | list _ own | set _ own | map _ own =>
    cases own <;> simp only [withInfo, toJson, depth_withMeta]

theorem depth_withProperty (n : Node) (name : String) (child : Node) :
    (n.withProperty name child).toJson.depth ≤ max n.toJson.depth (child.toJson.depth + 3) := by
  cases n with
  | complex i own declared =>
    rw [withProperty, depth_complex, depth_complex, Nat.add_max_add_right]
    refine Nat.add_le_add_right (depthMembers_fields.2 fun e he => ?_) 3
    rcases Keyed.mem_keys_insert he with rfl | he
    · exact (depth_withInfo _ child).trans_le (Nat.le_max_right _ _)
    · exact (depthMembers_fields.1 (Nat.le_refl _) e he).trans (Nat.le_max_left _ _)
  | simple | list | set | map => exact Nat.le_max_left _ _

/-- The content stays exactly if the property had the same content before. -/
theorem sameContent_withProperty (hn : n.kind = .complex) (horder : n.isOrdered = true) :
    n.sameContent (n.withProperty name child) = true ↔
      ∃ m, n.property? name = some m ∧ m.sameContent (child.withPropertyName name) = true := by
  cases n with
  | complex i own declared =>
    obtain ⟨hsorted, hown⟩ := complex_ordered_iff.1 horder
    simp only [withProperty, sameContent, Bool.and_eq_true, beq_iff_eq, sameFields_iff,
      Keyed.length_insert_iff hsorted, Keyed.lookup_insert]
    constructor
    · rintro ⟨hname, hfields⟩
      obtain ⟨m, hm⟩ := Option.isSome_iff_exists.1 (Keyed.lookup_isSome_iff.2 hname)
      obtain ⟨_, hinserted, hsame⟩ := hfields (name, m) (Keyed.mem_of_lookup hm)
      rw [if_pos rfl] at hinserted
      exact ⟨m, hm, Option.some.inj hinserted ▸ hsame⟩
    · rintro ⟨m, hm, hsame⟩
      have hm : own.lookup name = some m := hm
      refine ⟨Keyed.lookup_isSome_iff.1 (hm ▸ rfl), fun e he => ?_⟩
      have hlookup := Keyed.lookup_of_mem hsorted he
      by_cases hname : e.1 = name
      · rw [hname, hm] at hlookup
        exact ⟨_, if_pos hname, Option.some.inj hlookup ▸ hsame⟩
      · exact ⟨e.2, (if_neg hname).trans hlookup, sameContent_refl (hown e he)⟩
  | simple | list | set | map => cases hn

/-- What setting a property to a text makes of the stored snapshot, or of none. -/
structure SetTo (name value : String) (before : Option Node) (after : Node) : Prop where
  kind : after.kind = .complex
  text : ∃ info, after.property? name = some (.simple info (some value))
  /-- The other properties are the same, node for node, in all but the bookkeeping of saves. -/
  others : ∀ other, other ≠ name →
    Option.Rel (fun a b => a.Alike b ∧ a.sameContent b = true)
      (before.bind fun n => n.property? other) (after.property? other)
  declared : ∀ other, other ∈ after.declared?.getD [] ↔
    other = name ∨ other ∈ (before.bind Node.declared?).getD []
  first : before = none → after.version = 1
  later : ∀ b, before = some b →
    after.version = if b.sameContent after then b.version else b.version + 1
  changed : ∀ b, before = some b → (b.sameContent after = true ↔
    ∃ info, b.property? name = some (.simple info (some value)))

theorem sameContent_simple {i : Info} {text : Option String} :
    n.sameContent (simple i text) = true ↔ ∃ j, n = simple j text := by
  constructor
  · intro h
    cases n with
    | simple j own =>
      have hsame : own = text := by simpa [sameContent] using h
      exact ⟨j, hsame ▸ rfl⟩
    | complex => simp [sameContent] at h
    | list _ own | set _ own | map _ own => cases own <;> simp [sameContent] at h
  · rintro ⟨j, rfl⟩
    simp [sameContent]

end Node

/-! ## The saved node -/

namespace Stamp

open Node

variable {s : Schema} {type : Schema.Record} {target path : Path} {before above : Option Node}
  {name value typeName : String}

theorem declared?_stamp (role : Role) (previous ancestor : Option Node) (n : Node) :
    (stamp s target role previous ancestor n).declared? = n.declared? := by
  cases n with
  | simple | complex => rfl
  | list _ own | set _ own | map _ own => cases own <;> rfl

/-- A stamp of the edited snapshot changes nothing but the bookkeeping of the other properties. -/
theorem setTo_forSave (info : Info) (hkind : ∀ b, before = some b → b.kind = .complex)
    (horder : ∀ b, before = some b → b.Everywhere InOrder) :
    SetTo name value before
      (forSave s type before ((before.getD (.emptyComplex path typeName)).withProperty name
        (.simple info (some value))) above target) := by
  -- What is edited: the stored node, or an empty one when nothing is stored yet.
  obtain ⟨current, hcurrent⟩ : ∃ n, before.getD (.emptyComplex path typeName) = n := ⟨_, rfl⟩
  have hcomplex : current.kind = .complex := by
    cases before with
    | none => exact hcurrent ▸ rfl
    | some b => exact hcurrent ▸ hkind b rfl
  have hproperty (other : String) :
      current.property? other = before.bind fun n => n.property? other := by
    cases before <;> exact hcurrent ▸ rfl
  have hdeclared : current.declared?.getD [] = (before.bind Node.declared?).getD [] := by
    cases before <;> exact hcurrent ▸ rfl
  rw [hcurrent, forSave]
  constructor
  case kind => rw [kind_stamp, kind_withProperty, hcomplex]
  case text =>
    rw [property?_stamp, property?_withProperty hcomplex, beq_self_eq_true, if_pos rfl]
    exact ⟨_, rfl⟩
  case others =>
    intro other hother
    rw [property?_stamp, property?_withProperty hcomplex, beq_eq_false_iff_ne.2 hother,
      if_neg Bool.false_ne_true, hproperty]
    cases hold : before.bind fun n => n.property? other with
    | none => exact .none
    | some x =>
      obtain ⟨b, hb, hx⟩ := Option.bind_eq_some_iff.1 hold
      have hordered : x.isOrdered = true :=
        isOrdered_of_everywhere ((horder b hb).children x (mem_children_of_property hx))
      refine .some ⟨Alike.symm (alike_stamp s target _ _ _ x), ?_⟩
      rw [sameContent_stamp]
      exact sameContent_refl hordered
  case declared =>
    intro other
    rw [declared?_stamp, mem_declared_withProperty hcomplex, hdeclared]
  case first =>
    rintro rfl
    rw [version_stamp]
    rfl
  case later =>
    rintro b rfl
    rw [version_stamp, sameContent_stamp]
    rfl
  case changed =>
    rintro b rfl
    obtain rfl : b = current := hcurrent
    rw [sameContent_stamp, sameContent_withProperty hcomplex
      (isOrdered_of_everywhere (horder b rfl))]
    simp only [withPropertyName, withInfo, sameContent_simple]
    constructor
    · rintro ⟨_, hm, j, rfl⟩
      exact ⟨j, hm⟩
    · rintro ⟨j, hm⟩
      exact ⟨_, hm, j, rfl⟩

end Stamp

theorem Node.Admitted.getD {d : Nat} (hd : 3 < d) {before : Option Node}
    (h : ∀ b, before = some b → b.Admitted d) (path : Path) (typeName : String) :
    (before.getD (.emptyComplex path typeName)).Everywhere InOrder ∧
      (before.getD (.emptyComplex path typeName)).toJson.depth < d := by
  cases before with
  | none =>
    refine ⟨everywhere_complex.2 ⟨⟨Keyed.sorted_nil, .nil⟩, List.forall_mem_nil _⟩, ?_⟩
    rw [Option.getD_none, emptyComplex, depth_complex]
    exact hd
  | some b =>
    have hb := h b rfl
    exact ⟨fun m hm => (hb.regular m hm).order, hb.depth⟩

/-- A save of the edited snapshot to the directory that it was read from. The limit of nesting has to
leave room for one property below the root. -/
theorem Store.saveWith_setTo {rules : Rules} {d : Directory} {st' : Store} {path : Path}
    {typeName name value : String} {info : Info} {before : Option Node} {stamped : Node}
    {loaded : Option Int} (hnesting : 6 ≤ d.nesting) (hpath : path.isReadable = true)
    (hroom : ∀ n, d.load path = .ok (some n) → n.Everywhere fun m => m.version < Text.maxInt64)
    (hbefore : d.load path = .ok before)
    (h : (directory d).saveWith rules path typeName
      ((before.getD (.emptyComplex path typeName)).withProperty name (.simple info (some value)))
      loaded = .ok (stamped, st')) :
    ∃ d', st' = directory d' ∧ d.Puts d' path stamped ∧ Node.SetTo name value before stamped := by
  have hadmitted : ∀ b, before = some b → b.Admitted d.nesting := by
    rintro b rfl
    exact Directory.admitted_of_load hbefore
  obtain ⟨horder, hdepth⟩ := Node.Admitted.getD (by omega) hadmitted path typeName
  have hchild : (Node.simple info (some value)).toJson.depth = 2 := by
    rw [Node.toJson, Node.depth_withMeta]
    rfl
  have hkind := kind_of_saveWith h
  rw [Node.kind_withProperty] at hkind
  obtain ⟨type, previous, above, d', rfl, hprevious, rfl, hputs⟩ := saveWith_puts hpath hroom
    (Node.inOrder_withProperty horder (Node.everywhere_simple.2 trivial))
    ((Node.depth_withProperty _ _ _).trans_lt (max_lt hdepth (by omega))) h
  obtain rfl : before = previous := Except.ok.inj (hbefore.symm.trans hprevious)
  refine ⟨d', rfl, hputs, Stamp.setTo_forSave info ?_ ?_⟩
  · rintro b rfl
    exact hkind
  · exact fun b hb m hm => ((hadmitted b hb).regular m hm).order

/-! ## The command -/

namespace CommandLine

open Store (Directory)
open Node (SetTo)

variable {c : Context} {d d' : Directory} {text name value : String} {lines : List String}

theorem service_over (c : Context) (st : Store) : (c.service st).Over st :=
  ⟨rfl, (Service.start_over st _).cache.setEnabled _⟩

theorem store_of_failed_save (c : Context) (st : Store) (path : Path) (typeName : String)
    (node : Node) {e : Error}
    (h : ((c.service st).save c.rules path typeName node).result = .error e) :
    ((c.service st).save c.rules path typeName node).service.store = st := by
  obtain ⟨hresult, hstore⟩ :=
    Service.saveWith_store c.rules path typeName node none (service_over c st)
  rw [Service.save] at h ⊢
  rw [hresult, map_eq_error] at h
  rw [hstore, h]
  rfl

theorem set_eq_ok :
    set c d text name value = .ok (lines, d') ↔
      ∃ path property before saved st', Path.parse text = .ok path ∧
        simpleProperty c path.className name = .ok property ∧ d.load path = .ok before ∧
        (Store.directory d).saveWith c.rules path path.className
            ((before.getD (.emptyComplex path path.className)).withProperty name
              (.simple { definedAt := path, typeName := property.typeName } (some value)))
            none = .ok (saved, st') ∧
        ["✓ Saved " ++ path.text ++ " (version " ++ toString saved.version ++ ")"] = lines ∧
        st'.directory?.getD d = d' := by
  have hsave (path : Path) (node : Node) :=
    Service.saveWith_store c.rules path path.className node none (service_over c (.directory d))
  simp only [set, bind_eq_ok, parsePath, mapError_eq_ok, Service.save, hsave, map_eq_ok,
    pure_pair_eq_ok, Prod.exists]
  constructor
  · rintro ⟨path, hparse, property, hproperty, before, hbefore, saved, ⟨_, st', hsaved, rfl⟩,
      hlines, hd'⟩
    rw [hsaved] at hd'
    exact ⟨path, property, before, _, st', hparse, hproperty, hbefore, hsaved, hlines, hd'⟩
  · rintro ⟨path, property, before, saved, st', hparse, hproperty, hbefore, hsaved, hlines, hd'⟩
    refine ⟨path, hparse, property, hproperty, before, hbefore, saved, ⟨_, st', hsaved, rfl⟩,
      hlines, ?_⟩
    rw [hsaved]
    exact hd'

theorem set_puts (hnesting : 6 ≤ d.nesting)
    (hpath : ∀ path, Path.parse text = .ok path → path.isReadable = true ∧
      ∀ n, d.load path = .ok (some n) → n.Everywhere fun m => m.version < Text.maxInt64)
    (h : set c d text name value = .ok (lines, d')) :
    ∃ path before after, Path.parse text = .ok path ∧ d.load path = .ok before ∧
      d.Puts d' path after ∧ SetTo name value before after := by
  obtain ⟨path, property, before, saved, st', hparse, -, hbefore, hsaved, -, rfl⟩ := set_eq_ok.1 h
  obtain ⟨hreadable, hroom⟩ := hpath path hparse
  obtain ⟨d₁, rfl, hputs, hset⟩ := Store.saveWith_setTo hnesting hreadable hroom hbefore hsaved
  exact ⟨path, before, saved, hparse, hbefore, hputs, hset⟩

/-- Setting a property of a path whose text can be read back, in a directory that reads snapshots
with properties and where no version at the path is the last one of 64 bits. If that succeeds, the
path holds what it held before but for the named property, which is a declared text now. Its version
moves on only with its content, and all else in the directory is as it was. If the command fails, it
leaves the directory as it was, and so does the service whenever a save fails. -/
theorem set_exact (files : Files) (d : Directory) (text name value : String)
    (hnesting : 6 ≤ d.nesting)
    (hpath : ∀ path, Path.parse text = .ok path → path.isReadable = true ∧
      ∀ n, d.load path = .ok (some n) → n.Everywhere fun m => m.version < Text.maxInt64) :
    ((run files d (.set text name value)).failure = none →
      ∃ path before after, Path.parse text = .ok path ∧ d.load path = .ok before ∧
        d.Puts (run files d (.set text name value)).store path after ∧
        SetTo name value before after) ∧
    (∀ f, (run files d (.set text name value)).failure = some f →
      (run files d (.set text name value)).store = d) ∧
    ∀ (c : Context) (path : Path) (typeName : String) (node : Node) (e : Error),
      ((c.service (.directory d)).save c.rules path typeName node).result = .error e →
        ((c.service (.directory d)).save c.rules path typeName node).service.store =
          .directory d := by
  have hsaves (c : Context) (path : Path) (typeName : String) (node : Node) (e : Error) :=
    @store_of_failed_save c (.directory d) path typeName node e
  cases hset : (loadContext files).bind fun c => set c d text name value with
  | error f =>
    have hrun : run files d (.set text name value) = ⟨[], some f, d⟩ := by
      rw [run, hset]
      rfl
    rw [hrun]
    exact ⟨by simp, fun _ _ => rfl, hsaves⟩
  | ok answer =>
    obtain ⟨lines, d'⟩ := answer
    have hrun : run files d (.set text name value) = ⟨lines, none, d'⟩ := by
      rw [run, hset]
      rfl
    obtain ⟨c, -, hset⟩ := bind_eq_ok.1 hset
    rw [hrun]
    exact ⟨fun _ => set_puts hnesting hpath hset, by simp, hsaves⟩

end CommandLine

namespace Sample

open Store Store.Directory CommandLine

def classApp : Path := global.upTo 0

def classDefault : Path := global.upTo 1

theorem parse_global : Path.parse "class[name=App]/default/global" = .ok global := by
  decide +kernel

def portAt (place : Path) (version : Int) (port : String) : Node :=
  .complex { definedAt := place, typeName := "App", version }
    [("port", .simple { definedAt := place, typeName := "int", version } (some port))] ["port"]

/-- The global snapshot and the two above it. -/
def portSnapshots : List (Path × Node) :=
  [(classApp, portAt classApp 3 "80"), (classDefault, portAt classDefault 2 "90"),
    (global, portAt global 1 "91")]

def portStore : Store.Directory :=
  portSnapshots.foldl (fun d e => d.withFile (fileName e.1) (Snapshot.text ⟨e.1, e.2⟩))
    (.atPlace "store" (.directory []))

def portSchema : String := "[types.App.properties.port]\nkind = \"simple\"\ntype = \"int\""

/-- There are no settings. -/
def portFiles : Files := ⟨⟨"settings.toml", .error .absent⟩, some ⟨"schema.toml", .ok portSchema⟩⟩

def portContext : Context := ⟨.standard, .insert .empty record, .standard, .standard⟩

theorem loadContext_portFiles : loadContext portFiles = .ok portContext := by
  have hschema : Schema.parse portSchema .standard = .ok portContext.schema := by decide +kernel
  simp only [loadContext, portFiles, Context.load, Schema.parseFile, hschema]
  rfl

theorem entry?_portStore :
    ∀ e ∈ portSnapshots,
      portStore.entry? (fileName e.1) = some (.text (Snapshot.text ⟨e.1, e.2⟩)) := by
  have hkeys : [key classApp, key classDefault, key global].Nodup := by decide +kernel
  simp only [List.nodup_cons, List.mem_cons, List.not_mem_nil, or_false, not_or] at hkeys
  obtain ⟨⟨happDefault, happGlobal⟩, hdefaultGlobal, -⟩ := hkeys
  have hne {p q : Path} (h : key p ≠ key q) : fileName p ≠ fileName q :=
    fun hname => h (key_of_fileName hname)
  simp [portSnapshots, portStore, entry?_withFile, hne happDefault, hne happGlobal,
    hne hdefaultGlobal]

theorem load_portStore : ∀ e ∈ portSnapshots, portStore.load e.1 = .ok (some e.2) := by
  have hkept : ∀ e ∈ portSnapshots, keeps standardNesting e.2 = true := by decide +kernel
  have hplace : ∀ e ∈ portSnapshots, e.2.definedAt = e.1 := by decide
  intro e he
  rw [Directory.load, entry?_portStore e he]
  exact map_eq_ok.2 ⟨_, read_own (hplace e he) (hkept e he) (fileName e.1), rfl⟩

theorem load_global : portStore.load global = .ok (some (portAt global 1 "91")) :=
  load_portStore (global, portAt global 1 "91") (by simp [portSnapshots])

/-- The port of the default scope counts above the global one. -/
theorem ancestor_portStore :
    (directory portStore).ancestor portContext.rules record global =
      .ok (some (portAt classDefault 2 "90")) := by
  have hparent : global.parent? = some classDefault := by decide
  have hancestry : classDefault.ancestry = [classApp, classDefault] := by decide
  have happ : portStore.load classApp = .ok (some (portAt classApp 3 "80")) :=
    load_portStore (classApp, portAt classApp 3 "80") (by simp [portSnapshots])
  have hdefault : portStore.load classDefault = .ok (some (portAt classDefault 2 "90")) :=
    load_portStore (classDefault, portAt classDefault 2 "90") (by simp [portSnapshots])
  have hlevels : classDefault.ancestry.mapM (directory portStore).load =
      .ok [some (portAt classApp 3 "80"), some (portAt classDefault 2 "90")] := by
    simp only [hancestry, List.mapM_cons, List.mapM_nil, Store.load, happ, hdefault]
    rfl
  have hmerged : Merge.levels portContext.rules.toRules record
      [some (portAt classApp 3 "80"), some (portAt classDefault 2 "90")] =
        .ok (some (portAt classDefault 2 "90"), ⟨1, 0⟩) := by
    decide +kernel
  rw [Store.ancestor, hparent]
  exact bind_eq_ok.2 ⟨_, hlevels, map_eq_ok.2 ⟨_, hmerged, rfl⟩⟩

theorem commit_portStore {stamped : Node} (hplace : stamped.definedAt = global) :
    ∃ r, (directory portStore).commit stamped (some (portAt global 1 "91")) none = .ok r := by
  have hsave : portStore.save stamped =
      .ok (portStore.withFile (fileName global) (Snapshot.text ⟨global, stamped⟩)) := by
    rw [save_eq, hplace, entry?_portStore (global, portAt global 1 "91") (by simp [portSnapshots])]
    rfl
  have hload : portStore.load stamped.definedAt = .ok (some (portAt global 1 "91")) := by
    rw [hplace, load_global]
  have hupdate : portStore.update stamped (portAt global 1 "91").version = .ok _ :=
    bind_eq_ok.2 ⟨_, hload, bind_eq_ok.2 ⟨(), rfl, hsave⟩⟩
  have hwrite : Service.write (directory portStore) stamped (some (portAt global 1 "91")) none =
      .ok (directory (portStore.withFile (fileName global) (Snapshot.text ⟨global, stamped⟩))) := by
    rw [Service.write, Store.update, hupdate]
    rfl
  rw [Store.commit, hwrite]
  split
  · exact ⟨_, rfl⟩
  · exact ⟨_, rfl⟩

/-- The snapshot with another port, as it is given to the service. -/
def editedPort : Node :=
  (portAt global 1 "91").withProperty "port"
    (.simple { definedAt := global, typeName := "int" } (some "92"))

theorem saveWith_portStore :
    ∃ r, (directory portStore).saveWith portContext.rules global "App" editedPort none = .ok r := by
  have htype : portContext.rules.rootType global "App" = .ok record := by decide +kernel
  have hload : (directory portStore).load global = .ok (some (portAt global 1 "91")) := load_global
  obtain ⟨r, hr⟩ := commit_portStore (Stamp.definedAt_stamp portContext.rules.schema global
    (.type record) (some (portAt global 1 "91")) (some (portAt classDefault 2 "90")) editedPort)
  refine ⟨r, bind_eq_ok.2 ⟨record, htype, ?_⟩⟩
  rw [if_neg (by decide)]
  exact bind_eq_ok.2 ⟨_, hload, bind_eq_ok.2 ⟨_, ancestor_portStore, hr⟩⟩

theorem run_portStore :
    (run portFiles portStore (.set "class[name=App]/default/global" "port" "92")).failure =
      none := by
  have hclass : global.className = "App" := by decide +kernel
  have hproperty : simpleProperty portContext global.className "port" =
      .ok (.simple "port" "int") := by
    decide +kernel
  obtain ⟨⟨saved, st'⟩, hsaved⟩ := saveWith_portStore
  rw [← hclass] at hsaved
  have hset := set_eq_ok.2
    ⟨global, _, _, saved, st', parse_global, hproperty, load_global, hsaved, rfl, rfl⟩
  have hrun : ((loadContext portFiles).bind fun c =>
      CommandLine.set c portStore "class[name=App]/default/global" "port" "92") = .ok _ :=
    bind_eq_ok.2 ⟨_, loadContext_portFiles, hset⟩
  rw [run, hrun]
  rfl

/-- The port is another one afterwards, and the version moves on with it. Two snapshots that are
stored above were merged for that. -/
theorem global_port_set :
    (directory portStore).ancestor portContext.rules record global =
        .ok (some (portAt classDefault 2 "90")) ∧
      portStore.load global = .ok (some (portAt global 1 "91")) ∧
      ∃ after,
        (run portFiles portStore
          (.set "class[name=App]/default/global" "port" "92")).store.load global =
            .ok (some after) ∧
        after.version = 2 ∧ ∃ info, after.property? "port" = some (.simple info (some "92")) := by
  have hpath : ∀ path, Path.parse "class[name=App]/default/global" = .ok path →
      path.isReadable = true ∧ ∀ n, portStore.load path = .ok (some n) →
        n.Everywhere fun m => m.version < Text.maxInt64 := by
    intro path hp
    obtain rfl : global = path := Except.ok.inj (parse_global.symm.trans hp)
    refine ⟨by decide +kernel, fun n hn => ?_⟩
    obtain rfl : portAt global 1 "91" = n :=
      Option.some.inj (Except.ok.inj (load_global.symm.trans hn))
    refine Node.everywhere_complex.2 ⟨by decide, List.forall_mem_singleton.2 ?_⟩
    exact Node.everywhere_simple.2 (by decide)
  obtain ⟨hset, -, -⟩ :=
    set_exact portFiles portStore "class[name=App]/default/global" "port" "92" (by decide) hpath
  obtain ⟨path, before, after, hp, hbefore, hputs, hafter⟩ := hset run_portStore
  obtain rfl : global = path := Except.ok.inj (parse_global.symm.trans hp)
  obtain rfl : some (portAt global 1 "91") = before :=
    Except.ok.inj (load_global.symm.trans hbefore)
  have hchanged : ¬ (portAt global 1 "91").sameContent after = true := by
    rw [hafter.changed _ rfl]
    rintro ⟨info, hinfo⟩
    simp [portAt, Node.property?, Node.properties?] at hinfo
  refine ⟨ancestor_portStore, load_global, after, hputs.held, ?_, hafter.text⟩
  rw [hafter.later _ rfl, if_neg hchanged]
  rfl

end Sample

end ScopedConfig
