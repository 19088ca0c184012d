import ScopedConfig.Proofs.Files
import ScopedConfig.Proofs.Run

/-!
# Stores answer alike

Whoever asks a store cannot tell whether it keeps its snapshots in files or in memory: if both are
empty at first, every request is answered the same way.
-/

namespace ScopedConfig.Store

open Scope (Path)
open ScopedConfig.Except

/-! ## Requests -/

inductive Request where
  | load (path : Path)
  | save (node : Node)
  | update (node : Node) (loaded : Int)
  | delete (path : Path) (below : Bool)
  | deleteMentioning (name : String) (properties : List (String × String))
  | list (name : String) (properties : List (String × String))
deriving DecidableEq

inductive Reply where
  | node (stored : Option Node)
  | done
  | count (count : Nat)
  | paths (paths : List Path)
deriving DecidableEq

namespace Request

/-- The path whose snapshot is asked for or changed. -/
def paths : Request → List Path
  | load path | delete path _ => [path]
  | save node | update node _ => [node.definedAt]
  | deleteMentioning .. | list .. => []

/-- Every path in the arguments can be read back from its text, and so can every document that is
to be stored. -/
def isStorable (nesting : Nat) : Request → Bool
  | load path | delete path _ => path.isReadable
  | save node | update node _ => Directory.keeps nesting node
  | deleteMentioning .. | list .. => true

theorem isReadable_of_mem {nesting : Nat} {r : Request} (h : r.isStorable nesting = true) {p : Path}
    (hp : p ∈ r.paths) : p.isReadable = true := by
  cases r with
  | load | delete =>
    rw [List.mem_singleton.1 hp]
    exact h
  | save | update =>
    rw [List.mem_singleton.1 hp]
    exact Directory.isReadable_of_keeps h
  | deleteMentioning | list => cases hp

end Request

def respond (st : Store) : Request → Except Error (Reply × Store)
  | .load path => (st.load path).map fun stored => (.node stored, st)
  | .save node => (st.save node).map fun st' => (.done, st')
  | .update node loaded => (st.update node loaded).map fun st' => (.done, st')
  | .delete path below => (st.delete path below).map fun r => (.count r.1, r.2)
  | .deleteMentioning name properties =>
    (st.deleteMentioning name properties).map fun r => (.count r.1, r.2)
  | .list name properties => (st.list name properties).map fun paths => (.paths paths, st)

/-- What is answered, in order. A request that fails changes nothing. -/
def responses : Store → List Request → List (Except Error Reply)
  | _, [] => []
  | st, r :: rest =>
    match st.respond r with
    | .ok (reply, st') => .ok reply :: responses st' rest
    | .error e => .error e :: responses st rest

/-! ## One request -/

/-- Two outcomes that show the same and leave a directory that mirrors the memory. -/
inductive Alike (known : List Path) (nesting : Nat) :
    Except Error (Reply × Store) → Except Error (Reply × Store) → Prop where
  | error (e : Error) : Alike known nesting (.error e) (.error e)
  | ok (reply : Reply) {d : Directory} {m : Memory} (h : d.Mirrors known nesting m) :
    Alike known nesting (.ok (reply, .directory d)) (.ok (reply, .memory m))

theorem respond_alike {known : List Path} {nesting : Nat} {d : Directory} {m : Memory}
    (h : d.Mirrors known nesting m) (hapart : Directory.Apart known) {r : Request}
    (hr : r.isStorable nesting = true) (hknown : ∀ p ∈ r.paths, p ∈ known) :
    Alike known nesting ((directory d).respond r) ((memory m).respond r) := by
  cases r with
  | load path =>
    have hload := h.load hapart (hknown path List.mem_cons_self)
    simp only [respond, Store.load, hload]
    exact .ok _ h
  | save node =>
    obtain ⟨d', hsave, h'⟩ := h.save hapart hr (hknown _ List.mem_cons_self)
    simp only [respond, Store.save, hsave]
    exact .ok _ h'
  | update node loaded =>
    obtain ⟨d', hsave, h'⟩ := h.save hapart hr (hknown _ List.mem_cons_self)
    have hload := h.load hapart (hknown _ List.mem_cons_self)
    simp only [respond, Store.update, Directory.update, Memory.update, hload]
    cases hcheck : checkVersion node.definedAt (m.load node.definedAt) loaded with
    | error e =>
      simp only [bind, Except.bind, hcheck]
      exact .error e
    | ok =>
      simp only [bind, Except.bind, hcheck, hsave]
      exact .ok _ h'
  | delete path below =>
    obtain ⟨d', hdelete, h'⟩ := h.delete hapart (hknown path List.mem_cons_self) below
    simp only [respond, Store.delete, hdelete]
    exact .ok _ h'
  | deleteMentioning name properties =>
    obtain ⟨d', hdelete, h'⟩ := h.removeWhere hapart fun p => p.mentions name properties
    simp only [respond, Store.deleteMentioning, Directory.deleteMentioning, hdelete]
    exact .ok _ h'
  | list name properties =>
    simp only [respond, Store.list, h.list]
    exact .ok _ h

/-! ## All requests -/

theorem Directory.Mirrors.responses {known : List Path} {nesting : Nat} {d : Directory} {m : Memory}
    (h : d.Mirrors known nesting m) (hapart : Directory.Apart known) {requests : List Request}
    (hstorable : ∀ r ∈ requests, r.isStorable nesting = true)
    (hknown : ∀ r ∈ requests, ∀ p ∈ r.paths, p ∈ known) :
    (directory d).responses requests = (memory m).responses requests := by
  induction requests generalizing d m with
  | nil => rfl
  | cons r rest ih =>
    rw [List.forall_mem_cons] at hstorable hknown
    have halike := respond_alike h hapart hstorable.1 hknown.1
    generalize hfiles : (directory d).respond r = files at halike
    generalize hcells : (memory m).respond r = cells at halike
    rw [Store.responses, Store.responses, hfiles, hcells]
    cases halike with
    | error e => exact congrArg (_ :: ·) (ih h hstorable.2 hknown.2)
    | ok reply h' => exact congrArg (_ :: ·) (ih h' hstorable.2 hknown.2)

/-- A store of files whose directory is not there yet answers all requests as an empty store in
memory does. The hashes have to tell the texts of the requested paths apart, and what is stored may
not nest deeper than what can be read. The empty path names no directory, so it cannot be listed. -/
theorem directory_responds_as_memory {root : String} {nesting : Nat} (hroot : root ≠ "")
    {requests : List Request} (hstorable : ∀ r ∈ requests, r.isStorable nesting = true)
    (hhash : ∀ p ∈ requests.flatMap Request.paths, ∀ q ∈ requests.flatMap Request.paths,
      Directory.key p = Directory.key q → p.text = q.text) :
    (directory ⟨root, .absent, nesting⟩).responses requests =
      (memory .empty).responses requests := by
  let known := requests.flatMap Request.paths
  have hreadable : ∀ p ∈ known, p.isReadable = true := by
    intro p hp
    obtain ⟨r, hr, hp⟩ := List.mem_flatMap.1 hp
    exact Request.isReadable_of_mem (hstorable r hr) hp
  have hapart : Directory.Apart known := fun p hp q hq hname =>
    Path.text_inj (hreadable p hp) (hreadable q hq)
      (hhash p hp q hq (Directory.key_of_fileName hname))
  have hstart : Directory.Mirrors known nesting ⟨root, .absent, nesting⟩ .empty := by
    constructor <;> simp [Directory.entries, Memory.empty, hroot, Keyed.sorted_nil]
  exact hstart.responses hapart hstorable fun r hr p hp => List.mem_flatMap.2 ⟨r, hr, hp⟩

end ScopedConfig.Store

namespace ScopedConfig.Sample

open Store

def snapshot (path : Scope.Path) (version : Int) : Node :=
  .complex { definedAt := path, typeName := "App", version := version }
    [("port", .simple { definedAt := path, typeName := "int", propertyName := some "port" }
      (some "80"))] ["port"]

def requests : List Request :=
  [.save (snapshot alice 1), .save (snapshot global 1), .update (snapshot alice 2) 0, .load alice,
    .list "global" [], .delete global true]

theorem keys_differ : Directory.key alice ≠ Directory.key global := by decide +kernel

/-- The update goes by a version that was never stored. -/
theorem requests_answered_alike :
    (directory ⟨"store", .absent, Directory.standardNesting⟩).responses requests =
        (memory .empty).responses requests ∧
      (memory .empty).responses requests =
        [.ok .done, .ok .done, .error (.stale alice 0 1), .ok (.node (some (snapshot alice 1))),
          .ok (.paths [global, alice]), .ok (.count 2)] := by
  refine ⟨directory_responds_as_memory (by decide) (by decide +kernel) ?_, rfl⟩
  have hpaths : requests.flatMap Request.paths = [alice, global, alice, alice, global] := rfl
  simp [hpaths, keys_differ, keys_differ.symm]

end ScopedConfig.Sample
