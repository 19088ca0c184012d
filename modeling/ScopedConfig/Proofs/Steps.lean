import ScopedConfig.Proofs.Interchange

/-!
# Requests to a directory, step by step

A store of files answers a request in several steps, and what was changed before a step fails stays
changed. A snapshot is written to a draft first, which then takes the place of the snapshot's file.
-/

namespace ScopedConfig.Store.Directory

open Scope (Path)
open ScopedConfig.Except

/-! ## Steps -/

/-- Steps that look at a directory and change it. -/
abbrev Steps := ExceptT Error (StateM Directory)

/-- The result of the steps, and the directory after them, whether or not they failed. -/
def outcome {α : Type} (steps : Steps α) (d : Directory) : Except Error α × Directory :=
  (steps.run.run d).run

section
variable {α β : Type} {x : Steps α} {f : α → Steps β} {d d' d₁ : Directory} {a : α} {e : Error}

@[simp] theorem outcome_pure : outcome (pure a) d = (.ok a, d) := rfl

@[simp] theorem outcome_throw : outcome (throw e : Steps α) d = (.error e, d) := rfl

@[simp] theorem outcome_get : outcome get d = (.ok d, d) := rfl

@[simp] theorem outcome_set : outcome (set d' : Steps PUnit) d = (.ok ⟨⟩, d') := rfl

theorem outcome_bind (x : Steps α) (f : α → Steps β) (d : Directory) :
    outcome (x >>= f) d =
      match outcome x d with
      | (.ok a, d₁) => outcome (f a) d₁
      | (.error e, d₁) => (.error e, d₁) := by
  simp only [outcome, ExceptT.run_bind, StateT.run_bind, Id.run_bind]
  obtain ⟨_ | a, d₁⟩ := (x.run.run d).run
  · rfl
  · rfl

end

/-! ## The steps of one request -/

/-- What the system refuses during one request, whatever the directory holds. -/
structure Refusals where
  reading : Option Error := none
  creating : Option Error := none
  /-- With what was written of the draft, if it could be opened. -/
  writing : Option (Error × Option String) := none
  moving : Option Error := none

def refuse : Option Error → Steps Unit
  | none => pure ()
  | some e => throw e

/-- Looks at the directory and changes nothing. -/
def ask {α : Type} (refusals : Refusals) (question : Directory → Except Error α) : Steps α := do
  refuse refusals.reading
  match question (← get) with
  | .ok answer => pure answer
  | .error e => throw e

/-- Creates the root if nothing is there. -/
def create (refusals : Refusals) : Steps Unit := do
  refuse refusals.creating
  let d ← get
  match d.place with
  | .absent => set { d with place := .directory [] }
  | .unreachable fault => throw (.storage (.creating d.root) (.file fault))
  | .file => throw (.storage (.creating d.root) (.file .alreadyExists))
  | .directory _ => pure ()

def writeDraft (refusals : Refusals) (draft content : String) : Steps Unit := do
  let d ← get
  if d.entry? draft = some .directory then
    throw (.storage (.writing (d.filePath draft)) (.file .isDirectory))
  else
    match refusals.writing with
    | none => set (d.withFile draft content)
    | some (e, none) => throw e
    | some (e, some written) => do
      set (d.withFile draft written)
      throw e

/-- The draft takes the place of the file. -/
def renameDraft (refusals : Refusals) (draft name : String) : Steps Unit := do
  refuse refusals.moving
  let d ← get
  if d.entry? name = some .directory then
    throw (.storage (.renaming (d.filePath draft)) (.file .isDirectory))
  else
    match d.entry? draft with
    | some (.text content) => set ((d.withoutFiles [draft]).withFile name content)
    | _ => throw (.storage (.renaming (d.filePath draft)) (.file .absent))

/-- The name of the draft of a file. The mark tells apart the processes that write. -/
def draftName (mark name : String) : String := name ++ mark ++ ".tmp"

def replaceFile (mark : String) (refusals : Refusals) (name content : String) : Steps Unit := do
  writeDraft refusals (draftName mark name) content
  renameDraft refusals (draftName mark name) name

def writeSnapshot (mark : String) (refusals : Refusals) (node : Node) : Steps Unit := do
  create refusals
  replaceFile mark refusals (fileName node.definedAt) (Snapshot.text ⟨node.definedAt, node⟩)

/-- Removes the files one after the other and counts them. One that has vanished is not counted. -/
def removeFiles : List String → Steps Nat
  | [] => pure 0
  | name :: rest => do
    let d ← get
    match d.entry? name with
    | none => removeFiles rest
    | some .directory => throw (.storage (.removing (d.filePath name)) (.file .isDirectory))
    | some (.text _) => do
      set (d.withoutFiles [name])
      let others ← removeFiles rest
      pure (others + 1)

/-- The files of the paths that satisfy the condition. -/
def matching (condition : Path → Bool) (d : Directory) : Except Error (List String) :=
  d.scan.map fun files => (files.filter fun f => condition f.2).map Prod.fst

/-- The file of the path, if it is there. -/
def ownFiles (d : Directory) (path : Path) : List String :=
  match d.entry? (fileName path) with
  | none => []
  | some _ => [fileName path]

def perform (mark : String) (refusals : Refusals) : Request → Steps Reply
  | .load path => do
    let stored ← ask refusals fun d => d.load path
    pure (.node stored)
  | .save node => do
    writeSnapshot mark refusals node
    pure .done
  | .update node loaded => do
    ask refusals fun d => do
      let stored ← d.load node.definedAt
      checkVersion node.definedAt stored loaded
    writeSnapshot mark refusals node
    pure .done
  | .delete path true => do
    let names ← ask refusals (matching fun p => p.extends? path)
    let count ← removeFiles names
    pure (.count count)
  | .delete path false => do
    let d ← get
    let count ← removeFiles (d.ownFiles path)
    pure (.count count)
  | .deleteMentioning name properties => do
    let names ← ask refusals (matching fun p => p.mentions name properties)
    let count ← removeFiles names
    pure (.count count)
  | .list name properties => do
    let paths ← ask refusals fun d => d.list name properties
    pure (.paths paths)

/-- What is answered, in order. Each request comes with what the system refuses during it. -/
def answers (mark : String) : Directory → List (Refusals × Request) → List (Except Error Reply)
  | _, [] => []
  | d, (refusals, r) :: rest =>
    let (reply, d') := outcome (perform mark refusals r) d
    reply :: answers mark d' rest

/-! ## Files in a directory -/

theorem entry?_withFile (d : Directory) (name content other : String) :
    entry? (d.withFile name content) other =
      if other == name then some (.text content) else d.entry? other :=
  Keyed.lookup_insert name other (Entry.text content) d.entries

theorem entry?_withoutFiles (d : Directory) (names : List String) (other : String) :
    entry? (d.withoutFiles names) other =
      if !names.contains other then d.entry? other else none :=
  Keyed.lookup_filter (fun name => !names.contains name) other d.entries

theorem withoutFiles_withoutFiles (d : Directory) (names others : List String) :
    (d.withoutFiles names).withoutFiles others = d.withoutFiles (names ++ others) := by
  simp [withoutFiles, entries, List.filter_filter, Bool.and_comm]

theorem endsWith_iff {s suffix : String} :
    s.endsWith suffix = true ↔ suffix.toList <:+ s.toList := by
  rw [String.endsWith_eq_endsWith_toSlice, String.Slice.endsWith_string_iff]
  simp

theorem isSnapshotName_draftName (mark name : String) :
    isSnapshotName (draftName mark name) = false := by
  have hend : (draftName mark name).endsWith ".json" = false := by
    rw [← Bool.not_eq_true, endsWith_iff]
    rintro ⟨front, hfront⟩
    have hlast := congrArg List.getLast? hfront
    simp [draftName] at hlast
  rw [isSnapshotName, hend, Bool.false_and]

theorem draftName_ne {mark name other : String} (h : isSnapshotName other = true) :
    (draftName mark name == other) = false ∧ (other == draftName mark name) = false := by
  have hne : draftName mark name ≠ other := by
    rintro rfl
    rw [isSnapshotName_draftName] at h
    cases h
  exact ⟨beq_eq_false_iff_ne.2 hne, beq_eq_false_iff_ne.2 hne.symm⟩

/-! ## What the steps do -/

theorem outcome_ask (refusals : Refusals) (question : Directory → Except Error α) (d : Directory) :
    outcome (ask refusals question) d =
      (match refusals.reading with
        | none => question d
        | some e => .error e, d) := by
  rw [ask, outcome_bind]
  cases refusals.reading with
  | some e => rfl
  | none =>
    simp only [refuse, outcome_pure, outcome_bind, outcome_get]
    cases question d <;> rfl

/-- The directory after its root was created. -/
def opened (d : Directory) : Directory := { d with place := .directory d.entries }

/-- Why no directory can be there. -/
def obstacle? (d : Directory) : Option FileFault :=
  match d.place with
  | .absent | .directory _ => none
  | .unreachable fault => some fault
  | .file => some .alreadyExists

theorem outcome_create (refusals : Refusals) (d : Directory) :
    outcome (create refusals) d =
      match refusals.creating, d.obstacle? with
      | some e, _ => (.error e, d)
      | none, some fault => (.error (.storage (.creating d.root) (.file fault)), d)
      | none, none => (.ok (), d.opened) := by
  rw [create, outcome_bind]
  cases refusals.creating with
  | some e => rfl
  | none =>
    obtain ⟨root, place, nesting⟩ := d
    cases place <;> rfl

theorem outcome_writeDraft (refusals : Refusals) (draft content : String) (d : Directory) :
    outcome (writeDraft refusals draft content) d =
      if d.entry? draft = some .directory then
        (.error (.storage (.writing (d.filePath draft)) (.file .isDirectory)), d)
      else
        match refusals.writing with
        | none => (.ok (), d.withFile draft content)
        | some (e, none) => (.error e, d)
        | some (e, some written) => (.error e, d.withFile draft written) := by
  rw [writeDraft, outcome_bind, outcome_get]
  simp only
  split
  · rfl
  · match refusals.writing with
    | none | some (e, none) | some (e, some written) => rfl

theorem outcome_renameDraft (refusals : Refusals) {draft name content : String} {d : Directory}
    (hdraft : d.entry? draft = some (.text content)) :
    outcome (renameDraft refusals draft name) d =
      match refusals.moving with
      | some e => (.error e, d)
      | none =>
        if d.entry? name = some .directory then
          (.error (.storage (.renaming (d.filePath draft)) (.file .isDirectory)), d)
        else (.ok (), (d.withoutFiles [draft]).withFile name content) := by
  rw [renameDraft, outcome_bind]
  cases refusals.moving with
  | some e => rfl
  | none =>
    simp only [refuse, outcome_pure, outcome_bind, outcome_get]
    split
    · rfl
    · simp only [hdraft, outcome_set]

theorem outcome_replaceFile (mark : String) (refusals : Refusals) {name : String} (content : String)
    (d : Directory) (hname : isSnapshotName name = true) :
    outcome (replaceFile mark refusals name content) d =
      let draft := draftName mark name
      if d.entry? draft = some .directory then
        (.error (.storage (.writing (d.filePath draft)) (.file .isDirectory)), d)
      else
        match refusals.writing, refusals.moving with
        | some (e, none), _ => (.error e, d)
        | some (e, some written), _ => (.error e, d.withFile draft written)
        | none, some e => (.error e, d.withFile draft content)
        | none, none =>
          if d.entry? name = some .directory then
            (.error (.storage (.renaming (d.filePath draft)) (.file .isDirectory)),
              d.withFile draft content)
          else
            (.ok (), ((d.withFile draft content).withoutFiles [draft]).withFile name content) := by
  rw [replaceFile, outcome_bind, outcome_writeDraft]
  by_cases hfree : d.entry? (draftName mark name) = some .directory
  · simp only [if_pos hfree]
  · simp only [if_neg hfree]
    match refusals.writing with
    | some (e, none) | some (e, some written) => rfl
    | none =>
      have hwritten : entry? (d.withFile (draftName mark name) content) (draftName mark name) =
          some (.text content) := by
        simp [entry?_withFile]
      have hother : entry? (d.withFile (draftName mark name) content) name = d.entry? name := by
        rw [entry?_withFile, (draftName_ne hname).2]
        rfl
      simp only [outcome_renameDraft refusals hwritten, hother]
      cases refusals.moving <;> rfl

/-! ### Removing -/

theorem outcome_removeFiles (name : String) (rest : List String) (d : Directory) :
    outcome (removeFiles (name :: rest)) d =
      match d.entry? name with
      | none => outcome (removeFiles rest) d
      | some .directory =>
        (.error (.storage (.removing (d.filePath name)) (.file .isDirectory)), d)
      | some (.text _) =>
        ((outcome (removeFiles rest) (d.withoutFiles [name])).1.map (· + 1),
          (outcome (removeFiles rest) (d.withoutFiles [name])).2) := by
  rw [removeFiles, outcome_bind, outcome_get]
  simp only
  cases d.entry? name with
  | none => rfl
  | some entry =>
    cases entry with
    | directory => rfl
    | text content =>
      simp only [outcome_bind, outcome_set]
      obtain ⟨_ | n, d₁⟩ := outcome (removeFiles rest) (d.withoutFiles [name]) <;> rfl

theorem removeFiles_plain {names : List String} {d : Directory} (hnodup : names.Nodup)
    (hplain : ∀ name ∈ names, ∃ content, d.entry? name = some (.text content)) :
    outcome (removeFiles names) d =
      (.ok names.length, if names.isEmpty then d else d.withoutFiles names) := by
  induction names generalizing d with
  | nil => rfl
  | cons name rest ih =>
    obtain ⟨⟨content, hcontent⟩, hrest⟩ := List.forall_mem_cons.1 hplain
    obtain ⟨hnew, hnodup⟩ := List.nodup_cons.1 hnodup
    have hothers : ∀ other ∈ rest, ∃ content,
        entry? (d.withoutFiles [name]) other = some (.text content) := by
      intro other hother
      obtain ⟨content, hcontent⟩ := hrest other hother
      have hne : other ≠ name := fun heq => hnew (heq ▸ hother)
      exact ⟨content, by simp [entry?_withoutFiles, hne, hcontent]⟩
    rw [outcome_removeFiles, hcontent, ih hnodup hothers]
    cases rest with
    | nil => rfl
    | cons other others =>
      simp [withoutFiles_withoutFiles, Except.map]

theorem readAll_spec {d : Directory} {es : List (String × Entry)} {files : List (String × Path)}
    (h : d.readAll es = .ok files) :
    (files.map Prod.fst).Perm ((es.map Prod.fst).filter isSnapshotName) ∧
      ∀ name ∈ files.map Prod.fst, ∃ content, (name, Entry.text content) ∈ es := by
  induction es generalizing files with
  | nil =>
    cases h
    simp
  | cons e rest ih =>
    obtain ⟨name, entry⟩ := e
    rw [readAll] at h
    cases hname : isSnapshotName name with
    | false =>
      simp only [hname, Bool.false_eq_true, if_false] at h
      obtain ⟨hperm, hplain⟩ := ih h
      refine ⟨by simpa [hname] using hperm, fun other hother => ?_⟩
      obtain ⟨content, hcontent⟩ := hplain other hother
      exact ⟨content, List.mem_cons_of_mem _ hcontent⟩
    | true =>
      simp only [hname, if_true] at h
      obtain ⟨s, hs, h⟩ := bind_eq_ok.1 h
      obtain ⟨others, hothers, h⟩ := bind_eq_ok.1 h
      cases h
      obtain ⟨hperm, hplain⟩ := ih hothers
      have hinsert := (insertFile_perm (name, s.path) others).map Prod.fst
      refine ⟨?_, fun other hother => ?_⟩
      · simpa [hname] using hinsert.trans (hperm.cons name)
      · rcases List.mem_cons.1 (hinsert.mem_iff.1 hother) with rfl | hmem
        · cases entry with
          | directory => simp [read] at hs
          | text content => exact ⟨content, List.mem_cons_self⟩
        · obtain ⟨content, hcontent⟩ := hplain other hmem
          exact ⟨content, List.mem_cons_of_mem _ hcontent⟩

theorem scan_spec {d : Directory} {files : List (String × Path)} (h : d.scan = .ok files) :
    (∀ name ∈ files.map Prod.fst, isSnapshotName name = true) ∧
      (Keyed.Sorted d.entries → (files.map Prod.fst).Nodup ∧
        ∀ name ∈ files.map Prod.fst, ∃ content, d.entry? name = some (.text content)) := by
  have hcases : files = [] ∨ d.readAll d.entries = .ok files := by
    rw [scan] at h
    rw [entries]
    cases hplace : d.place with
    | absent | unreachable =>
      rw [hplace] at h
      cases h
      exact .inl rfl
    | file =>
      rw [hplace] at h
      cases h
    | directory es =>
      simp only [hplace] at h
      split at h
      · cases h
        exact .inl rfl
      · exact .inr h
  rcases hcases with rfl | hread
  · simp
  · obtain ⟨hperm, hplain⟩ := readAll_spec hread
    refine ⟨fun name hname => (List.mem_filter.1 (hperm.mem_iff.1 hname)).2, fun hsorted => ?_⟩
    refine ⟨hperm.nodup_iff.2 ((Keyed.nodup_of_sorted hsorted).filter _), fun name hname => ?_⟩
    obtain ⟨content, hcontent⟩ := hplain name hname
    exact ⟨content, Keyed.lookup_of_mem hsorted hcontent⟩

theorem matching_spec {condition : Path → Bool} {d : Directory} {names : List String}
    (h : matching condition d = .ok names) :
    (∀ name ∈ names, isSnapshotName name = true) ∧
      (Keyed.Sorted d.entries → names.Nodup ∧
        ∀ name ∈ names, ∃ content, d.entry? name = some (.text content)) := by
  obtain ⟨files, hfiles, rfl⟩ := map_eq_ok.1 h
  obtain ⟨hnames, hplain⟩ := scan_spec hfiles
  have hsub : ((files.filter fun f => condition f.2).map Prod.fst).Sublist (files.map Prod.fst) :=
    List.filter_sublist.map _
  refine ⟨fun name hname => hnames name (hsub.subset hname), fun hsorted => ?_⟩
  obtain ⟨hnodup, hplain⟩ := hplain hsorted
  exact ⟨hnodup.sublist hsub, fun name hname => hplain name (hsub.subset hname)⟩

/-! ## The operations of the store -/

theorem save_eq (d : Directory) (node : Node) :
    d.save node =
      match d.obstacle? with
      | some fault => .error (.storage (.creating d.root) (.file fault))
      | none =>
        if d.entry? (fileName node.definedAt) = some .directory then
          .error (.storage (.renaming (d.filePath (draftName "" (fileName node.definedAt))))
            (.file .isDirectory))
        else .ok (d.withFile (fileName node.definedAt) (Snapshot.text ⟨node.definedAt, node⟩)) := by
  simp only [save, obstacle?, draftName, String.append_empty]
  cases d.place with
  | file | unreachable => rfl
  | absent | directory => rcases d.entry? (fileName node.definedAt) with _ | (_ | _) <;> rfl

theorem removeWhere_eq (d : Directory) (condition : Path → Bool) :
    d.removeWhere condition = (matching condition d).map fun names =>
      (names.length, if names.isEmpty then d else d.withoutFiles names) := by
  rw [removeWhere, matching]
  cases d.scan <;> rfl

end ScopedConfig.Store.Directory
