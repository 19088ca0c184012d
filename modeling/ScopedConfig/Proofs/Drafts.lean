import ScopedConfig.Proofs.Steps

/-!
# Drafts do not count

No answer depends on the drafts in a directory, and a request that fails has changed nothing else.
-/

namespace ScopedConfig

open Scope (Path)
open ScopedConfig.Except

namespace Store.Directory

variable {d d' d₁ d₂ : Directory}

/-! ## Directories that answer alike -/

/-- The place without the entries of a directory. One that can be created counts as created. -/
def barePlace (d : Directory) : Place :=
  match d.place with
  | .absent | .directory _ => .directory []
  | p => p

/-- The entries that are read as snapshots. -/
def snapshots (d : Directory) : List (String × Entry) :=
  d.entries.filter fun e => isSnapshotName e.1

/-- The two have the same snapshot files, and directories under the same names. Other files, such as
drafts, do not count. -/
structure Indistinct (d d' : Directory) : Prop where
  root : d.root = d'.root
  nesting : d.nesting = d'.nesting
  place : d.barePlace = d'.barePlace
  snapshots : d.snapshots = d'.snapshots
  directories : ∀ name, d.entry? name = some .directory ↔ d'.entry? name = some .directory
  sorted : Keyed.Sorted d.entries
  sorted' : Keyed.Sorted d'.entries

namespace Indistinct

theorem refl (h : Keyed.Sorted d.entries) : Indistinct d d :=
  ⟨rfl, rfl, rfl, rfl, fun _ => .rfl, h, h⟩

theorem trans (h : Indistinct d d₁) (h₁ : Indistinct d₁ d₂) : Indistinct d d₂ :=
  ⟨h.root.trans h₁.root, h.nesting.trans h₁.nesting, h.place.trans h₁.place,
    h.snapshots.trans h₁.snapshots, fun name => (h.directories name).trans (h₁.directories name),
    h.sorted, h₁.sorted'⟩

/-! ### What is read -/

theorem entry? (h : Indistinct d d') {name : String} (hname : isSnapshotName name = true) :
    d.entry? name = d'.entry? name := by
  have hlookup (d : Directory) : d.entry? name = d.snapshots.lookup name := by
    rw [Directory.snapshots, Keyed.lookup_filter, if_pos hname, Directory.entry?]
  rw [hlookup, hlookup, h.snapshots]

theorem filePath (h : Indistinct d d') (name : String) : d.filePath name = d'.filePath name := by
  rw [Directory.filePath, Directory.filePath, h.root]

theorem read (h : Indistinct d d') (name : String) (entry : Entry) :
    d.read name entry = d'.read name entry := by
  simp only [Directory.read, h.filePath, h.nesting]

theorem load (h : Indistinct d d') (path : Path) : d.load path = d'.load path := by
  rw [Directory.load, Directory.load, h.entry? (isSnapshotName_fileName path)]
  cases d'.entry? (fileName path) with
  | none => rfl
  | some entry => simp only [h.read]

theorem readAll (h : Indistinct d d') (es : List (String × Entry)) :
    d.readAll es = d'.readAll es := by
  induction es with
  | nil => rfl
  | cons e rest ih => simp only [Directory.readAll, h.read, ih]

end Indistinct

theorem readAll_snapshots (d : Directory) (es : List (String × Entry)) :
    d.readAll (es.filter fun e => isSnapshotName e.1) = d.readAll es := by
  induction es with
  | nil => rfl
  | cons e rest ih =>
    obtain ⟨name, entry⟩ := e
    cases hname : isSnapshotName name with
    | true => simp [hname, readAll, ih]
    | false => simp [hname, readAll, ih]

theorem scan_eq (d : Directory) :
    d.scan =
      match d.barePlace with
      | .unreachable _ => .ok []
      | .file => .error (.storage (.listing d.root) (.file .notDirectory))
      | _ => if d.root.isEmpty then .ok [] else d.readAll d.snapshots := by
  rw [scan, barePlace, snapshots, readAll_snapshots, entries]
  cases d.place with
  | absent => simp [readAll]
  | unreachable | file | directory => rfl

theorem Indistinct.scan (h : Indistinct d d') : d.scan = d'.scan := by
  rw [scan_eq, scan_eq, h.place, h.root, h.snapshots, h.readAll]

theorem Indistinct.list (h : Indistinct d d') (name : String)
    (properties : List (String × String)) : d.list name properties = d'.list name properties := by
  rw [Directory.list, Directory.list, h.scan]

theorem Indistinct.ownFiles (h : Indistinct d d') (path : Path) :
    d.ownFiles path = d'.ownFiles path := by
  have hentry := h.entry? (isSnapshotName_fileName path)
  rw [Directory.ownFiles, Directory.ownFiles, hentry]

theorem ownFiles_names {path : Path} : ∀ name ∈ d.ownFiles path, isSnapshotName name = true := by
  rw [ownFiles]
  split <;> simp [isSnapshotName_fileName]

theorem Indistinct.matching (h : Indistinct d d') (condition : Path → Bool) :
    matching condition d = matching condition d' := by
  rw [Directory.matching, Directory.matching, h.scan]

/-! ### What is changed -/

namespace Indistinct

theorem withFile (h : Indistinct d d') (name content : String) :
    Indistinct (d.withFile name content) (d'.withFile name content) where
  root := h.root
  nesting := h.nesting
  place := rfl
  snapshots := by
    have hinsert {d : Directory} (hd : Keyed.Sorted d.entries) :
        (d.withFile name content).snapshots =
          if isSnapshotName name then Keyed.insert name (.text content) d.snapshots
          else d.snapshots := by
      cases hname : isSnapshotName name with
      | true => exact Keyed.filter_insert _ hname hd
      | false => exact Keyed.filter_insert_of_not _ hname _
    rw [hinsert h.sorted, hinsert h.sorted', h.snapshots]
  directories other := by
    rw [entry?_withFile, entry?_withFile]
    split
    · rfl
    · exact h.directories other
  sorted := Keyed.sorted_insert _ _ h.sorted
  sorted' := Keyed.sorted_insert _ _ h.sorted'

theorem withoutFiles (h : Indistinct d d') (names : List String) :
    Indistinct (d.withoutFiles names) (d'.withoutFiles names) where
  root := h.root
  nesting := h.nesting
  place := rfl
  snapshots := by
    have hfilter (d : Directory) : (d.withoutFiles names).snapshots =
        d.snapshots.filter fun e => !names.contains e.1 := List.filter_comm ..
    rw [hfilter, hfilter, h.snapshots]
  directories other := by
    rw [entry?_withoutFiles, entry?_withoutFiles]
    split
    · exact h.directories other
    · rfl
  sorted := h.sorted.filter _
  sorted' := h.sorted'.filter _

theorem draft {name content : String} (hsorted : Keyed.Sorted d.entries)
    (hplace : d.barePlace = .directory []) (hname : isSnapshotName name = false)
    (hfree : d.entry? name ≠ some .directory) : Indistinct d (d.withFile name content) where
  root := rfl
  nesting := rfl
  place := hplace
  snapshots := (Keyed.filter_insert_of_not _ hname _).symm
  directories other := by
    rw [entry?_withFile]
    cases hother : other == name with
    | true =>
      obtain rfl : other = name := eq_of_beq hother
      simp [hfree]
    | false => rfl
  sorted := hsorted
  sorted' := Keyed.sorted_insert _ _ hsorted

end Indistinct

/-! ## Steps that do not depend on drafts -/

section
variable {α β : Type} {x : Steps α} {f : α → Steps β} {e : Error}

/-- Directories that answer alike give one result, and answer alike afterwards. -/
def Respects (x : Steps α) : Prop :=
  ∀ d d' : Directory, Indistinct d d' →
    (outcome x d).1 = (outcome x d').1 ∧ Indistinct (outcome x d).2 (outcome x d').2

/-- After a failure the directory answers as before. -/
def Traceless (x : Steps α) : Prop :=
  ∀ (d : Directory) (e : Error), Keyed.Sorted d.entries → (outcome x d).1 = .error e →
    Indistinct d (outcome x d).2

theorem respects_pure (a : α) : Respects (pure a : Steps α) :=
  fun _ _ h => ⟨rfl, h⟩

theorem Respects.bind (hx : Respects x)
    (hf : ∀ {d : Directory} {a : α}, (outcome x d).1 = .ok a → Respects (f a)) :
    Respects (x >>= f) := by
  intro d d' h
  obtain ⟨hresult, hafter⟩ := hx d d' h
  rw [outcome_bind, outcome_bind]
  cases hd : outcome x d with
  | mk result d₁ =>
    cases hd' : outcome x d' with
    | mk result' d₁' =>
      simp only [hd, hd'] at hresult hafter
      subst hresult
      cases result with
      | error e => exact ⟨rfl, hafter⟩
      | ok a => exact hf (by rw [hd]) _ _ hafter

theorem respects_ask (refusals : Refusals) {question : Directory → Except Error α}
    (hquestion : ∀ {d d' : Directory}, Indistinct d d' → question d = question d') :
    Respects (ask refusals question) := by
  intro d d' h
  rw [outcome_ask, outcome_ask, hquestion h]
  exact ⟨rfl, h⟩

/-! ### Writing -/

theorem Indistinct.opened {d d' : Directory} (h : Indistinct d d') :
    Indistinct d.opened d'.opened :=
  ⟨h.root, h.nesting, rfl, h.snapshots, h.directories, h.sorted, h.sorted'⟩

theorem indistinct_opened {d : Directory} (hsorted : Keyed.Sorted d.entries)
    (hplace : d.barePlace = .directory []) : Indistinct d d.opened :=
  ⟨rfl, rfl, hplace, rfl, fun _ => .rfl, hsorted, hsorted⟩

theorem barePlace_eq (d : Directory) :
    d.barePlace = if d.obstacle?.isNone then .directory [] else d.place := by
  rw [barePlace, obstacle?]
  cases d.place <;> rfl

theorem Indistinct.obstacle? {d d' : Directory} (h : Indistinct d d') :
    d.obstacle? = d'.obstacle? := by
  have hplace := h.place
  rw [barePlace, barePlace] at hplace
  rw [Directory.obstacle?, Directory.obstacle?]
  cases hd : d.place <;> cases hd' : d'.place <;> simp_all

theorem respects_create (refusals : Refusals) : Respects (create refusals) := by
  intro d d' h
  rw [outcome_create, outcome_create, h.obstacle?, h.root]
  match refusals.creating, d'.obstacle? with
  | some e, _ | none, some fault => exact ⟨rfl, h⟩
  | none, none => exact ⟨rfl, h.opened⟩

theorem respects_replaceFile (mark : String) (refusals : Refusals) {name : String}
    (content : String) (hname : isSnapshotName name = true) :
    Respects (replaceFile mark refusals name content) := by
  intro d d' h
  rw [outcome_replaceFile _ _ _ _ hname, outcome_replaceFile _ _ _ _ hname]
  simp only [h.directories, h.filePath]
  split
  · exact ⟨rfl, h⟩
  · match refusals.writing, refusals.moving with
    | some (e, none), _ => exact ⟨rfl, h⟩
    | some (e, some written), _ => exact ⟨rfl, h.withFile _ _⟩
    | none, some e => exact ⟨rfl, h.withFile _ _⟩
    | none, none =>
      simp only
      split
      · exact ⟨rfl, h.withFile _ _⟩
      · exact ⟨rfl, ((h.withFile _ _).withoutFiles _).withFile _ _⟩

/-- A file that is not replaced leaves nothing behind but a draft. -/
theorem traceless_replaceFile (mark : String) (refusals : Refusals) {name : String}
    (content : String) (hname : isSnapshotName name = true) {d : Directory} {e : Error}
    (hsorted : Keyed.Sorted d.entries) (hplace : d.barePlace = .directory [])
    (h : (outcome (replaceFile mark refusals name content) d).1 = .error e) :
    Indistinct d (outcome (replaceFile mark refusals name content) d).2 := by
  rw [outcome_replaceFile _ _ _ _ hname] at h ⊢
  simp only at h ⊢
  split
  case isTrue => exact .refl hsorted
  case isFalse hfree =>
    have hdraft (written : String) : Indistinct d (d.withFile (draftName mark name) written) :=
      .draft hsorted hplace (isSnapshotName_draftName mark name) hfree
    match hwriting : refusals.writing, hmoving : refusals.moving with
    | some (e, none), _ => exact .refl hsorted
    | some (e, some written), _ => exact hdraft written
    | none, some e => exact hdraft content
    | none, none =>
      simp only
      split
      case isTrue => exact hdraft content
      case isFalse htarget => simp [hfree, hwriting, hmoving, htarget] at h

theorem respects_writeSnapshot (mark : String) (refusals : Refusals) (node : Node) :
    Respects (writeSnapshot mark refusals node) :=
  (respects_create refusals).bind fun _ =>
    respects_replaceFile mark refusals _ (isSnapshotName_fileName node.definedAt)

theorem traceless_writeSnapshot (mark : String) (refusals : Refusals) (node : Node) :
    Traceless (writeSnapshot mark refusals node) := by
  intro d e hsorted h
  rw [writeSnapshot, outcome_bind, outcome_create] at h ⊢
  match refusals.creating, hobstacle : d.obstacle?, h with
  | some e, _, _ | none, some fault, _ => exact .refl hsorted
  | none, none, h =>
    have hplace : d.barePlace = .directory [] := by simp [barePlace_eq, hobstacle]
    exact (indistinct_opened hsorted hplace).trans
      (traceless_replaceFile mark refusals _ (isSnapshotName_fileName _) hsorted rfl h)

/-! ### Removing -/

theorem respects_removeFiles {names : List String}
    (hnames : ∀ name ∈ names, isSnapshotName name = true) : Respects (removeFiles names) := by
  induction names with
  | nil => exact respects_pure 0
  | cons name rest ih =>
    rw [List.forall_mem_cons] at hnames
    intro d d' h
    rw [outcome_removeFiles, outcome_removeFiles, h.entry? hnames.1, h.filePath]
    match d'.entry? name with
    | none => exact ih hnames.2 d d' h
    | some .directory => exact ⟨rfl, h⟩
    | some (.text content) =>
      obtain ⟨hresult, hafter⟩ := ih hnames.2 _ _ (h.withoutFiles [name])
      exact ⟨congrArg (Except.map (· + 1)) hresult, hafter⟩

/-! ## Requests -/

theorem respects_removal (refusals : Refusals) (condition : Path → Bool) :
    Respects (do
      let names ← ask refusals (matching condition)
      let count ← removeFiles names
      pure (Reply.count count)) := by
  refine (respects_ask refusals fun h => h.matching condition).bind fun {d names} hnames => ?_
  refine (respects_removeFiles ?_).bind fun _ => respects_pure _
  rw [outcome_ask] at hnames
  cases hreading : refusals.reading with
  | some e => simp [hreading] at hnames
  | none =>
    simp only [hreading] at hnames
    exact (matching_spec hnames).1

theorem respects_perform (mark : String) (refusals : Refusals) (r : Request) :
    Respects (perform mark refusals r) := by
  cases r with
  | load path => exact (respects_ask refusals fun h => h.load path).bind fun _ => respects_pure _
  | save node => exact (respects_writeSnapshot mark refusals node).bind fun _ => respects_pure _
  | update node loaded =>
    refine (respects_ask refusals fun h => ?_).bind fun _ =>
      (respects_writeSnapshot mark refusals node).bind fun _ => respects_pure _
    rw [h.load]
  | delete path below =>
    cases below with
    | true => exact respects_removal refusals _
    | false =>
      intro d d' h
      rw [perform, outcome_bind, outcome_bind, outcome_get, outcome_get]
      simp only [h.ownFiles path]
      exact (respects_removeFiles ownFiles_names).bind (fun _ => respects_pure _) d d' h
  | deleteMentioning name properties => exact respects_removal refusals _
  | list name properties =>
    exact (respects_ask refusals fun h => h.list name properties).bind fun _ => respects_pure _

theorem Traceless.map {x : Steps α} (hx : Traceless x) (g : α → β) :
    Traceless (x >>= fun a => pure (g a)) := by
  intro d e hsorted h
  have hsame : (outcome (x >>= fun a => pure (g a)) d).2 = (outcome x d).2 ∧
      (outcome x d).1 = .error e := by
    rw [outcome_bind] at h ⊢
    match outcome x d, h with
    | (.error _, _), h =>
      cases h
      exact ⟨rfl, rfl⟩
    | (.ok a, _), h => cases h
  rw [hsame.1]
  exact hx d e hsorted hsame.2

theorem traceless_ask (refusals : Refusals) (question : Directory → Except Error α) :
    Traceless (ask refusals question) := by
  intro d e hsorted _
  rw [outcome_ask]
  exact .refl hsorted

theorem Traceless.ask_bind {refusals : Refusals} {question : Directory → Except Error α}
    (hf : ∀ (d : Directory) (a : α), question d = .ok a → ∀ e, Keyed.Sorted d.entries →
      (outcome (f a) d).1 = .error e → Indistinct d (outcome (f a) d).2) :
    Traceless (ask refusals question >>= f) := by
  intro d e hsorted h
  rw [outcome_bind, outcome_ask] at h ⊢
  match refusals.reading, hquestion : question d, h with
  | some e, _, _ => exact .refl hsorted
  | none, .error e, _ => exact .refl hsorted
  | none, .ok a, h => exact hf d a hquestion e hsorted h

theorem traceless_removal (refusals : Refusals) (condition : Path → Bool) :
    Traceless (do
      let names ← ask refusals (matching condition)
      let count ← removeFiles names
      pure (Reply.count count)) := by
  refine .ask_bind fun d names hnames e hsorted h => ?_
  -- What a scan has read are plain files, and their removal does not fail.
  obtain ⟨hnodup, hplain⟩ := (matching_spec hnames).2 hsorted
  rw [outcome_bind, removeFiles_plain hnodup hplain] at h
  cases h

theorem traceless_removeFile (name : String) : Traceless (removeFiles [name]) := by
  intro d e hsorted h
  rw [outcome_removeFiles] at h ⊢
  match d.entry? name, h with
  | none, _ | some .directory, _ => exact .refl hsorted
  | some (.text content), h => cases h

theorem traceless_perform (mark : String) (refusals : Refusals) (r : Request) :
    Traceless (perform mark refusals r) := by
  cases r with
  | load path => exact (traceless_ask refusals _).map _
  | save node => exact (traceless_writeSnapshot mark refusals node).map _
  | update node loaded =>
    exact .ask_bind fun d _ _ e hsorted h =>
      (traceless_writeSnapshot mark refusals node).map _ d e hsorted h
  | delete path below =>
    cases below with
    | true => exact traceless_removal refusals _
    | false =>
      intro d e hsorted h
      rw [perform, outcome_bind, outcome_get] at h ⊢
      simp only [ownFiles] at h ⊢
      match d.entry? (fileName path), h with
      | none, h => cases h
      | some _, h => exact (traceless_removeFile _).map _ d e hsorted h
  | deleteMentioning name properties => exact traceless_removal refusals _
  | list name properties => exact (traceless_ask refusals _).map _

theorem answers_cons (mark : String) (d : Directory) (refusals : Refusals) (r : Request)
    (rest : List (Refusals × Request)) :
    answers mark d ((refusals, r) :: rest) =
      (outcome (perform mark refusals r) d).1 ::
        answers mark (outcome (perform mark refusals r) d).2 rest := rfl

theorem answers_congr (mark : String) {requests : List (Refusals × Request)} {d d' : Directory}
    (h : Indistinct d d') : answers mark d requests = answers mark d' requests := by
  induction requests generalizing d d' with
  | nil => rfl
  | cons first rest ih =>
    obtain ⟨refusals, r⟩ := first
    obtain ⟨hreply, hafter⟩ := respects_perform mark refusals r d d' h
    rw [answers_cons, answers_cons, hreply, ih hafter]

end

end Store.Directory

end ScopedConfig
