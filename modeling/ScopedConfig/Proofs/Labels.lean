import ScopedConfig.Proofs.FilesApart

/-!
# Labels of files

Three labels say which path a file belongs to: its name, the path in the document and the path of
the node. The last two are compared when the file is read, and the first one is trusted. That is
safe as long as nobody else writes to the directory.
-/

namespace ScopedConfig.Store

open Scope (Path)

/-! ## Requests and answers -/

namespace Request

theorem keeps_of_node? {nesting : Nat} {r : Request} (h : r.isStorable nesting = true) {n : Node}
    (hn : r.node? = some n) : Directory.keeps nesting n = true ∧ n.definedAt ∈ r.paths := by
  cases r with
  | save | update =>
    cases hn
    exact ⟨h, List.mem_cons_self⟩
  | load | delete | deleteMentioning | list => cases hn

/-- A snapshot that is answered to a load is one of the path that was asked for. -/
def IsOwn (r : Request) (answer : Except Error Reply) : Prop :=
  ∀ p n, r = .load p → answer = .ok (.node (some n)) → n.definedAt = p

end Request

namespace Directory

variable {d d' : Directory} {p : Path}

/-! ## What a file holds -/

/-- The file of the path reads as this document, whatever paths that names. -/
def Holds (d : Directory) (p : Path) (s : Snapshot) : Prop :=
  ∃ content, d.entry? (fileName p) = some (.text content) ∧
    Snapshot.ofText d.nesting content = .ok s

theorem read_eq_ok {name : String} {entry : Entry} {s : Snapshot} :
    d.read name entry = .ok s ↔
      (∃ content, entry = .text content ∧ Snapshot.ofText d.nesting content = .ok s) ∧
        s.node.definedAt = s.path := by
  cases entry with
  | directory => simp [read]
  | text content =>
    rw [read]
    simp only [Entry.text.injEq, exists_eq_left']
    rcases Snapshot.ofText d.nesting content with (_ | cause) | t
    · simp
    · simp
    · simp only [Except.ok.injEq]
      split
      case isTrue hsame =>
        rw [Except.ok.injEq, iff_self_and]
        rintro rfl
        exact hsame
      case isFalse hother =>
        simp only [reduceCtorEq, false_iff]
        rintro ⟨rfl, hsame⟩
        exact hother hsame

theorem load_eq_ok_some_iff {n : Node} :
    d.load p = .ok (some n) ↔ d.Holds p ⟨n.definedAt, n⟩ := by
  rw [load, Holds]
  cases d.entry? (fileName p) with
  | none => simp
  | some entry =>
    simp only [Option.some.injEq]
    rw [Except.map_eq_ok]
    constructor
    · rintro ⟨⟨path, node⟩, hread, hnode⟩
      obtain ⟨hholds, hsame⟩ := read_eq_ok.1 hread
      obtain rfl : node = n := Option.some.inj hnode
      obtain rfl : node.definedAt = path := hsame
      exact hholds
    · intro hholds
      exact ⟨_, read_eq_ok.2 ⟨hholds, rfl⟩, rfl⟩

theorem load_of_contradiction {s : Snapshot} (h : d.Holds p s) (hother : s.node.definedAt ≠ s.path) :
    d.load p = .error (.corrupt (d.filePath (fileName p)) (.otherPath s.path s.node.definedAt)) := by
  obtain ⟨content, hentry, hread⟩ := h
  simp only [load, hentry, read, hread, if_neg hother]
  rfl

/-! ## Directories that nobody else writes to -/

/-- The file of the path is a document of the path, if it can be read and names one path. -/
def Own (d : Directory) (p : Path) : Prop := ∀ n, d.Holds p ⟨n.definedAt, n⟩ → n.definedAt = p

theorem own_of_absent (h : d.entry? (fileName p) = none) : d.Own p := by
  rintro n ⟨content, hentry, -⟩
  rw [h] at hentry
  cases hentry

theorem Own.withFile {n : Node} (h : d.Own p) (hkept : keeps d.nesting n = true)
    (hapart : fileName p = fileName n.definedAt → p = n.definedAt) :
    (d.withFile (fileName n.definedAt) (Snapshot.text ⟨n.definedAt, n⟩)).Own p := by
  rintro m ⟨content, hentry, hread⟩
  rw [entry?_withFile] at hentry
  by_cases hsame : fileName p = fileName n.definedAt
  · rw [if_pos (beq_iff_eq.2 hsame)] at hentry
    -- What is written can be read, so it names the path that its file is named for.
    obtain rfl := Entry.text.inj (Option.some.inj hentry)
    obtain ⟨⟨written, hwritten, hown⟩, -⟩ := read_eq_ok.1 (read_own rfl hkept (fileName p))
    obtain rfl := Entry.text.inj hwritten
    obtain rfl : m = n := congrArg Snapshot.node (Except.ok.inj (hread.symm.trans hown))
    exact (hapart hsame).symm
  · rw [if_neg (by simpa using hsame)] at hentry
    exact h m ⟨content, hentry, hread⟩

theorem Own.withoutFiles (h : d.Own p) (names : List String) : (d.withoutFiles names).Own p := by
  rintro n ⟨content, hentry, hread⟩
  rw [entry?_withoutFiles] at hentry
  split at hentry
  · exact h n ⟨content, hentry, hread⟩
  · cases hentry

theorem Own.of_change {r : Request} (h : d.Own p) (hr : r.isStorable d.nesting = true)
    (hapart : ∀ q ∈ r.paths, fileName p = fileName q → p = q) (hchange : Change d r d') :
    d'.Own p := by
  cases hchange with
  | none => exact h
  | write hnode =>
    obtain ⟨hkept, hmem⟩ := Request.keeps_of_node? hr hnode
    exact h.withFile hkept (hapart _ hmem)
  | remove => exact h.withoutFiles _

theorem nesting_of_change {r : Request} (hchange : Change d r d') : d'.nesting = d.nesting := by
  cases hchange <;> rfl

theorem isOwn_respond {r : Request} (h : ∀ q ∈ r.paths, d.Own q) {reply : Reply} {st : Store}
    (hr : (directory d).respond r = .ok (reply, st)) : r.IsOwn (.ok reply) := by
  rintro q n rfl hreply
  obtain ⟨stored, hload, heq⟩ := Except.map_eq_ok.1 hr
  cases heq
  cases hreply
  exact h q List.mem_cons_self n (load_eq_ok_some_iff.1 hload)

/-- A store whose files are its own keeps them so, and answers each load with them. -/
theorem responses_own {known : List Path} (hapart : Apart known) {requests : List Request}
    (hstorable : ∀ r ∈ requests, r.isStorable d.nesting = true)
    (hknown : ∀ r ∈ requests, ∀ p ∈ r.paths, p ∈ known) (hown : ∀ p ∈ known, d.Own p) :
    List.Forall₂ Request.IsOwn requests ((directory d).responses requests) := by
  induction requests generalizing d with
  | nil => exact .nil
  | cons r rest ih =>
    rw [List.forall_mem_cons] at hstorable hknown
    rw [responses]
    split
    case h_1 reply st hr =>
      obtain ⟨d', rfl, hchange⟩ := change_of_respond hr
      refine .cons (isOwn_respond (fun q hq => hown q (hknown.1 q hq)) hr) (ih ?_ hknown.2 ?_)
      · rw [nesting_of_change hchange]
        exact hstorable.2
      · intro q hq
        refine (hown q hq).of_change hstorable.1 (fun p hp => ?_) hchange
        exact hapart q hq p (hknown.1 p hp)
    case h_2 =>
      exact .cons (fun _ _ _ h => by cases h) (ih hstorable.2 hknown.2 hown)

/-! ## What is compared -/

/-- The path's answers are its own, and a document of another path is reported. -/
def Truthful (d : Directory) (p : Path) : Prop :=
  (∀ n, d.load p = .ok (some n) → n.definedAt = p) ∧
    ∀ s, d.Holds p s → s.path ≠ p →
      d.load p = .error (.corrupt (d.filePath (fileName p)) (.otherPath s.path s.node.definedAt))

theorem truthful_iff : d.Truthful p ↔ d.Own p := by
  constructor
  · rintro ⟨hload, -⟩ n hholds
    exact hload n (load_eq_ok_some_iff.2 hholds)
  · intro hown
    refine ⟨fun n hload => hown n (load_eq_ok_some_iff.1 hload), fun s hholds hother => ?_⟩
    refine load_of_contradiction hholds fun hsame => hother ?_
    obtain ⟨path, n⟩ := s
    obtain rfl : n.definedAt = path := hsame
    exact hown n hholds

/-- A load answers with the node of a document that names one path, whichever path that is, and
reports a document that names two. So what a directory answers for a path is right exactly if the
path's file is not a document of another path alone. That is kept by the requests that can be
stored, as far as the hash tells the requested paths apart. -/
theorem load_trusts_names (d : Directory) :
    (∀ p n, d.load p = .ok (some n) ↔ d.Holds p ⟨n.definedAt, n⟩) ∧
      (∀ p s, d.Holds p s → s.node.definedAt ≠ s.path →
        d.load p =
          .error (.corrupt (d.filePath (fileName p)) (.otherPath s.path s.node.definedAt))) ∧
      (∀ p, d.Truthful p ↔ d.Own p) ∧
      ∀ requests : List Request,
        (∀ r ∈ requests, r.isStorable d.nesting = true) →
        (∀ p ∈ requests.flatMap Request.paths, ∀ q ∈ requests.flatMap Request.paths,
          key p = key q → p.text = q.text) →
        (∀ p ∈ requests.flatMap Request.paths, d.Own p) →
        List.Forall₂ Request.IsOwn requests ((directory d).responses requests) := by
  refine ⟨fun p n => load_eq_ok_some_iff, fun p s => load_of_contradiction, fun p => truthful_iff,
    fun requests hstorable hhash hown => ?_⟩
  have hapart : Apart (requests.flatMap Request.paths) := fun p hp q hq hname =>
    Path.text_injective (hhash p hp q hq (key_of_fileName hname))
  exact responses_own hapart hstorable (fun r hr p hp => List.mem_flatMap.2 ⟨r, hr, hp⟩) hown

end Directory

end ScopedConfig.Store

namespace ScopedConfig.Sample

open Store Store.Directory

/-- The file of a user holds a document that has the global snapshot. -/
def userFile (s : Snapshot) : Store.Directory :=
  .atPlace "store" (.directory [(fileName alice, .text s.text)])

theorem entry?_userFile (s : Snapshot) :
    entry? (userFile s) (fileName alice) = some (.text s.text) := by
  simp [userFile, atPlace, Directory.entry?, entries]

/-- The document has the global path, too. -/
def misfiled : Store.Directory := userFile ⟨global, snapshot global 1⟩

/-- It is answered for the user, and not reported. -/
theorem misfiled_is_loaded :
    misfiled.load alice = .ok (some (snapshot global 1)) ∧ (snapshot global 1).definedAt ≠ alice := by
  have hkept : keeps misfiled.nesting (snapshot global 1) = true := by decide +kernel
  have hread := read_own rfl hkept (fileName alice)
  refine ⟨?_, by decide⟩
  rw [Directory.load, misfiled, entry?_userFile]
  exact Except.map_eq_ok.2 ⟨_, hread, rfl⟩

/-- The document has the user's path, and its node the global one. -/
def contradictory : Store.Directory := userFile ⟨alice, snapshot global 1⟩

def globalRequests : List Request :=
  [.load global, .save (snapshot global 2), .load global]

/-- The contradiction is reported. The file that is named for the user does not count where only the
global path is asked for. -/
theorem misfiled_responses_own :
    contradictory.load alice =
        .error (.corrupt (contradictory.filePath (fileName alice)) (.otherPath alice global)) ∧
      List.Forall₂ Request.IsOwn globalRequests
        ((directory misfiled).responses globalRequests) := by
  constructor
  · have hread : Snapshot.ofText contradictory.nesting (Snapshot.text ⟨alice, snapshot global 1⟩) =
        .ok ⟨alice, snapshot global 1⟩ :=
      Snapshot.ofText_text (by decide +kernel) (by decide +kernel) (by decide +kernel)
    have hholds : contradictory.Holds alice ⟨alice, snapshot global 1⟩ :=
      ⟨_, entry?_userFile _, hread⟩
    exact (load_trusts_names contradictory).2.1 alice _ hholds (by decide)
  · have hname : fileName global ≠ fileName alice := fun h => keys_differ (key_of_fileName h).symm
    have hown : misfiled.Own global := own_of_absent (by
      simp [misfiled, userFile, atPlace, Directory.entry?, entries, hname])
    have hpaths : globalRequests.flatMap Request.paths = [global, global, global] := rfl
    refine (load_trusts_names misfiled).2.2.2 globalRequests (by decide +kernel) ?_ ?_
    · simp [hpaths]
    · simpa [hpaths] using hown

end ScopedConfig.Sample
