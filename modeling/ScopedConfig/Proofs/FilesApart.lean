import ScopedConfig.Proofs.Ancestry
import ScopedConfig.Proofs.Steps

/-!
# Files of different paths

Different paths have different texts, whatever blanks they hold and whether or not they are read
back. So the files of two paths are one only if the hash takes two texts for one, and what is done
to the file of one path does not show at another.
-/

namespace ScopedConfig

open Scope (Path)

/-! ## Texts -/

/-- No slash stands in a segment, so the text shows the texts of the segments, and each of them is
read back. Blanks are lost at the end of a whole path only. -/
theorem Scope.Path.text_injective : Function.Injective Path.text := by
  have hsplit (p : Path) : p.text.toList.splitOn '/' = p.segments.map fun s => s.text.toList := by
    have hslash : ∀ piece ∈ p.segments.map fun s => s.text.toList, '/' ∉ piece := by
      rw [List.forall_mem_map]
      exact fun s hs => Segment.slash_notMem_text (p.fault?_of_mem s hs)
    rw [text_toList, List.splitOn_intercalate '/' hslash (by simp [p.segments_ne_nil])]
  intro p q h
  have hp := mapM_parse_text p.fault?_of_mem
  have hq := mapM_parse_text q.fault?_of_mem
  rw [← hsplit, h, hsplit, hq] at hp
  ext1
  exact (Except.ok.inj hp).symm

namespace Store

/-! ## What a request changes -/

namespace Request

/-- The snapshot that is to be stored. -/
def node? : Request → Option Node
  | save node | update node _ => some node
  | _ => none

/-- The path whose snapshot alone is written or removed. -/
def target? : Request → Option Path
  | save node | update node _ => some node.definedAt
  | delete path false => some path
  | _ => none

theorem target?_of_node? {r : Request} {node : Node} (h : r.node? = some node) :
    r.target? = some node.definedAt := by
  cases r with
  | save | update =>
    cases h
    rfl
  | load | delete | deleteMentioning | list => cases h

end Request

namespace Directory

variable {d d' d₁ : Directory} {q : Path}

/-- Nothing changes, or the snapshot's file is written, or files are removed: none but the target's,
if there is one. -/
inductive Change (d : Directory) (r : Request) : Directory → Prop where
  | none : Change d r d
  | write {node : Node} (hnode : r.node? = some node) :
    Change d r (d.withFile (fileName node.definedAt) (Snapshot.text ⟨node.definedAt, node⟩))
  | remove {names : List String} (hnames : ∀ p, r.target? = some p → names = [fileName p]) :
    Change d r (d.withoutFiles names)

theorem withFile_of_save {node : Node} (h : d.save node = .ok d') :
    d' = d.withFile (fileName node.definedAt) (Snapshot.text ⟨node.definedAt, node⟩) := by
  rw [save_eq] at h
  split at h
  · cases h
  · split at h
    · cases h
    · exact (Except.ok.inj h).symm

theorem withFile_of_update {node : Node} {loaded : Int} (h : d.update node loaded = .ok d') :
    d' = d.withFile (fileName node.definedAt) (Snapshot.text ⟨node.definedAt, node⟩) := by
  obtain ⟨stored, -, hwrite⟩ := Except.bind_eq_ok.1 h
  obtain ⟨-, -, hsave⟩ := Except.bind_eq_ok.1 hwrite
  exact withFile_of_save hsave

theorem change_of_removeWhere {r : Request} (hr : r.target? = none) {condition : Path → Bool}
    {count : Nat} (h : d.removeWhere condition = .ok (count, d')) : Change d r d' := by
  rw [removeWhere_eq] at h
  obtain ⟨names, -, heq⟩ := Except.map_eq_ok.1 h
  cases heq
  split
  · exact .none
  · exact .remove (by simp [hr])

theorem change_of_delete {p : Path} {below : Bool} {count : Nat}
    (h : d.delete p below = .ok (count, d')) : Change d (.delete p below) d' := by
  cases below with
  | true =>
    rw [Directory.delete, if_pos rfl] at h
    exact change_of_removeWhere rfl h
  | false =>
    rw [Directory.delete, if_neg Bool.false_ne_true] at h
    simp only at h
    split at h
    · cases h
      exact .none
    · cases h
    · cases h
      exact .remove fun p hp => by rw [Option.some.inj hp]

theorem change_of_respond {r : Request} {reply : Reply} {st : Store}
    (h : (directory d).respond r = .ok (reply, st)) : ∃ d', st = directory d' ∧ Change d r d' := by
  cases r with
  | load | list =>
    obtain ⟨answer, -, heq⟩ := Except.map_eq_ok.1 h
    cases heq
    exact ⟨d, rfl, .none⟩
  | save node =>
    obtain ⟨st', hst, heq⟩ := Except.map_eq_ok.1 h
    obtain ⟨d', hsave, rfl⟩ := Except.map_eq_ok.1 hst
    obtain rfl := withFile_of_save hsave
    cases heq
    exact ⟨_, rfl, .write rfl⟩
  | update node loaded =>
    obtain ⟨st', hst, heq⟩ := Except.map_eq_ok.1 h
    obtain ⟨d', hupdate, rfl⟩ := Except.map_eq_ok.1 hst
    obtain rfl := withFile_of_update hupdate
    cases heq
    exact ⟨_, rfl, .write rfl⟩
  | delete path below =>
    obtain ⟨r, hst, heq⟩ := Except.map_eq_ok.1 h
    obtain ⟨⟨count, d'⟩, hdelete, rfl⟩ := Except.map_eq_ok.1 hst
    cases heq
    exact ⟨d', rfl, change_of_delete hdelete⟩
  | deleteMentioning =>
    obtain ⟨r, hst, heq⟩ := Except.map_eq_ok.1 h
    obtain ⟨⟨count, d'⟩, hdelete, rfl⟩ := Except.map_eq_ok.1 hst
    cases heq
    exact ⟨d', rfl, change_of_removeWhere rfl hdelete⟩

/-! ## Directories with the same file of a path -/

/-- The file of the path is the same in both directories, or neither has one. -/
structure SameAt (q : Path) (d d' : Directory) : Prop where
  root : d'.root = d.root
  nesting : d'.nesting = d.nesting
  entry : d'.entry? (fileName q) = d.entry? (fileName q)

namespace SameAt

theorem refl (q : Path) (d : Directory) : SameAt q d d := ⟨rfl, rfl, rfl⟩

theorem trans (h : SameAt q d d₁) (h₁ : SameAt q d₁ d') : SameAt q d d' :=
  ⟨h₁.root.trans h.root, h₁.nesting.trans h.nesting, h₁.entry.trans h.entry⟩

theorem load (h : SameAt q d d') : d'.load q = d.load q := by
  simp only [Directory.load, Directory.read, filePath, h.root, h.nesting, h.entry]

theorem withFile {name : String} (hname : fileName q ≠ name) (content : String) :
    SameAt q d (d.withFile name content) :=
  ⟨rfl, rfl, by rw [entry?_withFile, beq_eq_false_iff_ne.2 hname]; rfl⟩

theorem withoutFiles {names : List String} (hnames : fileName q ∉ names) :
    SameAt q d (d.withoutFiles names) :=
  ⟨rfl, rfl, by simp [entry?_withoutFiles, hnames]⟩

theorem opened : SameAt q d d.opened := ⟨rfl, rfl, rfl⟩

theorem of_change {p : Path} (hname : fileName q ≠ fileName p) {r : Request}
    (hr : r.target? = some p) (h : Change d r d') : SameAt q d d' := by
  cases h with
  | none => exact .refl q d
  | write hnode =>
    obtain rfl : p = _ := Option.some.inj (hr.symm.trans (Request.target?_of_node? hnode))
    exact .withFile hname _
  | remove hnames =>
    rw [hnames p hr]
    exact .withoutFiles (by simpa using hname)

end SameAt

/-! ## Steps that spare the file of a path -/

/-- Whether or not they fail, the steps leave the file of the path as it is. -/
def Spares (q : Path) {α : Type} (x : Steps α) : Prop := ∀ d, SameAt q d (outcome x d).2

section
variable {α β : Type}

theorem spares_pure (a : α) : Spares q (pure a : Steps α) := fun d => .refl q d

theorem Spares.bind {x : Steps α} {f : α → Steps β} (hx : Spares q x) (hf : ∀ a, Spares q (f a)) :
    Spares q (x >>= f) := by
  intro d
  have hfirst := hx d
  rw [outcome_bind]
  generalize outcome x d = result at hfirst ⊢
  obtain ⟨_ | a, d₁⟩ := result
  · exact hfirst
  · exact hfirst.trans (hf a d₁)

theorem spares_ask (refusals : Refusals) (question : Directory → Except Error α) :
    Spares q (ask refusals question) := by
  intro d
  rw [outcome_ask]
  exact .refl q d

theorem spares_create (refusals : Refusals) : Spares q (create refusals) := by
  intro d
  rw [outcome_create]
  split
  · exact .refl q d
  · exact .refl q d
  · exact .opened

theorem spares_replaceFile (mark : String) (refusals : Refusals) {name : String} (content : String)
    (hsnapshot : isSnapshotName name = true) (hname : fileName q ≠ name) :
    Spares q (replaceFile mark refusals name content) := by
  intro d
  -- The draft is no file of a path.
  have hdraft : fileName q ≠ draftName mark name :=
    beq_eq_false_iff_ne.1 (draftName_ne (isSnapshotName_fileName q)).2
  rw [outcome_replaceFile _ _ _ _ hsnapshot]
  simp only
  split
  case isTrue => exact .refl q d
  case isFalse =>
    split
    · exact .refl q d
    · exact .withFile hdraft _
    · exact .withFile hdraft _
    · split
      case isTrue => exact .withFile hdraft _
      case isFalse =>
        exact ((SameAt.withFile hdraft _).trans (.withoutFiles (by simpa using hdraft))).trans
          (.withFile hname _)

theorem spares_writeSnapshot (mark : String) (refusals : Refusals) {node : Node}
    (hname : fileName q ≠ fileName node.definedAt) :
    Spares q (writeSnapshot mark refusals node) :=
  (spares_create refusals).bind fun _ =>
    spares_replaceFile mark refusals _ (isSnapshotName_fileName _) hname

theorem spares_removeFiles {names : List String} (hnames : fileName q ∉ names) :
    Spares q (removeFiles names) := by
  intro d
  induction names generalizing d with
  | nil => exact .refl q d
  | cons first rest ih =>
    obtain ⟨hfirst, hrest⟩ := not_or.1 (List.mem_cons.not.1 hnames)
    rw [outcome_removeFiles]
    split
    · exact ih hrest d
    · exact .refl q d
    · exact (SameAt.withoutFiles (by simpa using hfirst)).trans (ih hrest _)

theorem notMem_ownFiles {p : Path} (hname : fileName q ≠ fileName p) (d : Directory) :
    fileName q ∉ d.ownFiles p := by
  rw [ownFiles]
  split
  · exact List.not_mem_nil
  · simpa using hname

theorem spares_perform (mark : String) (refusals : Refusals) {p : Path} {r : Request}
    (hname : fileName q ≠ fileName p) (hr : r.target? = some p) :
    Spares q (perform mark refusals r) := by
  cases r with
  | save node =>
    obtain rfl : node.definedAt = p := Option.some.inj hr
    exact (spares_writeSnapshot mark refusals hname).bind fun _ => spares_pure _
  | update node loaded =>
    obtain rfl : node.definedAt = p := Option.some.inj hr
    exact (spares_ask refusals _).bind fun _ =>
      (spares_writeSnapshot mark refusals hname).bind fun _ => spares_pure _
  | delete path below =>
    cases below with
    | true => cases hr
    | false =>
      obtain rfl : path = p := Option.some.inj hr
      have hremove (d : Directory) : Spares q (removeFiles (d.ownFiles path) >>= fun count =>
          pure (Reply.count count)) :=
        (spares_removeFiles (notMem_ownFiles hname d)).bind fun _ => spares_pure _
      have hget : Spares q (get : Steps Directory) := fun d => .refl q d
      exact hget.bind hremove
  | load | deleteMentioning | list => cases hr

end

/-! ## Requests at other paths -/

theorem fileName_ne {p : Path} (hne : p ≠ q) (hhash : key p = key q → p.text = q.text) :
    fileName q ≠ fileName p := fun h =>
  hne (Path.text_injective (hhash (key_of_fileName h).symm))

/-- The directory after the requests, whether or not they failed. -/
def afterSteps (mark : String) : Directory → List (Refusals × Request) → Directory
  | d, [] => d
  | d, (refusals, r) :: rest => afterSteps mark (outcome (perform mark refusals r) d).2 rest

/-- Any number of requests at other paths. -/
theorem load_afterSteps (mark : String) {requests : List (Refusals × Request)} (d : Directory)
    (hothers : ∀ r ∈ requests, ∃ p, r.2.target? = some p ∧ p ≠ q ∧
      (key p = key q → p.text = q.text)) :
    (afterSteps mark d requests).load q = d.load q := by
  induction requests generalizing d with
  | nil => rfl
  | cons r rest ih =>
    obtain ⟨⟨p, hr, hne, hhash⟩, hrest⟩ := List.forall_mem_cons.1 hothers
    have hstep := spares_perform mark r.1 (fileName_ne hne hhash) hr d
    exact (ih _ hrest).trans hstep.load

/-- No two paths have one text. So whatever a directory holds, a request that writes the snapshot of
one path, or removes it alone, does not change what is loaded for another, as far as the hash tells
the two texts apart. That holds too where the request fails half-way. -/
theorem paths_apart :
    Function.Injective Path.text ∧
      ∀ (p q : Path) (r : Request) (d : Directory), p ≠ q → (key p = key q → p.text = q.text) →
        r.target? = some p →
        (∀ reply st, (directory d).respond r = .ok (reply, st) → st.load q = d.load q) ∧
          ∀ mark refusals, (outcome (perform mark refusals r) d).2.load q = d.load q := by
  refine ⟨Path.text_injective, fun p q r d hne hhash hr => ?_⟩
  have hname := fileName_ne hne hhash
  constructor
  · intro reply st h
    obtain ⟨d', rfl, hchange⟩ := change_of_respond h
    exact (SameAt.of_change hname hr hchange).load
  · intro mark refusals
    exact (spares_perform mark refusals hname hr d).load

end Directory

end Store

namespace Sample

open Store Store.Directory

/-- Its text reads back as the path without the blank. -/
def padded : Path :=
  ⟨[.withProperty "class" "name" "App", .named "default", .named "global "], by decide⟩

def globalStore : Store.Directory :=
  .atPlace "store" (.directory [fileOf (global, snapshot global 1)])

theorem padded_key_differs : key padded ≠ key global := by decide +kernel

theorem padded_saved_apart :
    ∃ st, (directory globalStore).respond (.save (snapshot padded 1)) = .ok (.done, st) ∧
      st.load global = globalStore.load global := by
  have hname : fileName padded ≠ fileName global := fun h => padded_key_differs (key_of_fileName h)
  have hsave : (directory globalStore).respond (.save (snapshot padded 1)) =
      .ok (.done, directory (globalStore.withFile (fileName padded)
        (Snapshot.text ⟨padded, snapshot padded 1⟩))) := by
    have hfree : globalStore.entry? (fileName padded) = none := by
      simp [globalStore, atPlace, Directory.entry?, entries, fileOf, hname]
    have hdefined : (snapshot padded 1).definedAt = padded := rfl
    simp only [respond, Store.save, save_eq, hdefined, hfree]
    rfl
  refine ⟨_, hsave, ?_⟩
  exact (paths_apart.2 padded global _ globalStore (by decide) (fun h => absurd h padded_key_differs)
    rfl).1 _ _ hsave

end Sample

end ScopedConfig
