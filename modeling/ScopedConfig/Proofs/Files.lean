import Mathlib.Data.List.Perm.Basic
import ScopedConfig.Proofs.NodeJson
import ScopedConfig.Proofs.Store

/-!
# Files of snapshots

A snapshot's file is named by 64 digits, reads back as the snapshot, and is found by a scan. So a
directory can mirror a store in memory: it holds the file of every snapshot and nothing else.
-/

namespace ScopedConfig

open ScopedConfig.Except

/-! ## Hashes -/

namespace Blake3

theorem compress_size (chaining block : Words) (counter : UInt64) (length flags : UInt32) :
    (compress chaining block counter length flags).size = 8 := by
  simp [compress]

theorem chunkBlocks_size (counter : UInt64) (last start : UInt32) {chaining : Words}
    (blocks : List (List UInt8)) (h : chaining.size = 8) :
    (chunkBlocks counter last start chaining blocks).size = 8 := by
  induction blocks generalizing chaining start with
  | nil => exact h
  | cons block rest ih =>
    cases rest with
    | nil => exact compress_size ..
    | cons next rest => exact ih 0 (compress_size ..)

theorem digest_size (bytes : List UInt8) : (digest bytes).size = 8 := by
  have hchunk (root : UInt32) (chunk : List UInt8) : (chunkValue 0 root chunk).size = 8 :=
    chunkBlocks_size _ _ _ _ rfl
  unfold digest
  split
  · exact hchunk _ _
  · exact hchunk _ _
  · split
    · exact compress_size ..
    · rfl

theorem hexDigest_length (text : String) : (hexDigest text).length = 64 := by
  have hword (w : UInt32) : ((wordBytes w).flatMap hexByte).length = 8 := rfl
  have hwords (ws : List UInt32) :
      ((ws.flatMap wordBytes).flatMap hexByte).length = 8 * ws.length := by
    induction ws with
    | nil => rfl
    | cons w rest ih =>
      rw [List.flatMap_cons, List.flatMap_append, List.length_append, hword, ih, List.length_cons]
      omega
  rw [hexDigest, String.length_ofList, hwords, Array.length_toList, digest_size]

end Blake3

namespace Store.Directory

open Scope (Path)

theorem isSnapshotName_fileName (path : Path) : isSnapshotName (fileName path) = true := by
  have hend : (key path ++ ".json").endsWith ".json" = true := by
    rw [String.endsWith_eq_endsWith_toSlice, String.Slice.endsWith_string_iff]
    simp
  have hlength : (fileName path).length = 69 := by
    rw [fileName, String.length_append, key, Blake3.hexDigest_length]
    rfl
  rw [isSnapshotName, fileName, hend, ← fileName, hlength]
  rfl

theorem key_of_fileName {p q : Path} (h : fileName p = fileName q) : key p = key q := by
  have hlist : (key p).toList ++ ".json".toList = (key q).toList ++ ".json".toList := by
    rw [← String.toList_append, ← String.toList_append]
    exact congrArg String.toList h
  exact String.toList_injective (List.append_cancel_right hlist)

/-! ## One file -/

/-- The file that keeps the snapshot. -/
def fileOf (e : Path × Node) : String × Entry := (fileName e.1, .text (Snapshot.text ⟨e.1, e.2⟩))

/-- The snapshot's file can be read back. -/
def keeps (nesting : Nat) (n : Node) : Bool :=
  n.isStorable && (Snapshot.toJson ⟨n.definedAt, n⟩).depth ≤ nesting

theorem isReadable_of_keeps {nesting : Nat} {n : Node} (h : keeps nesting n = true) :
    n.definedAt.isReadable = true := by
  simp only [keeps, Bool.and_eq_true] at h
  have hinfo := Node.info_storable h.1
  simp only [Info.isStorable, Bool.and_eq_true] at hinfo
  exact hinfo.1.1

theorem read_own {d : Directory} {path : Path} {n : Node} (hown : n.definedAt = path)
    (h : keeps d.nesting n = true) (name : String) :
    d.read name (.text (Snapshot.text ⟨path, n⟩)) = .ok ⟨path, n⟩ := by
  subst hown
  have hpath := isReadable_of_keeps h
  simp only [keeps, Bool.and_eq_true, decide_eq_true_eq] at h
  have htext : Snapshot.ofText d.nesting (Snapshot.text ⟨n.definedAt, n⟩) = .ok ⟨n.definedAt, n⟩ :=
    Snapshot.ofText_text hpath h.1 h.2
  simp [read, htext]

/-! ## Scans -/

/-- The files stand in the order of their paths. -/
def InOrder (files : List (String × Path)) : Prop :=
  files.Pairwise fun a b => (compare a.2 b.2).isLE = true

theorem insertFile_perm (file : String × Path) (files : List (String × Path)) :
    (insertFile file files).Perm (file :: files) := by
  induction files with
  | nil => exact List.Perm.refl _
  | cons f rest ih =>
    rw [insertFile]
    split
    · exact List.Perm.refl _
    · exact (ih.cons f).trans (List.Perm.swap _ _ _)

theorem inOrder_insertFile {file : String × Path} {files : List (String × Path)}
    (h : InOrder files) : InOrder (insertFile file files) := by
  induction files with
  | nil => exact List.pairwise_singleton _ _
  | cons f rest ih =>
    obtain ⟨hfirst, hrest⟩ := List.pairwise_cons.1 h
    rw [insertFile]
    split
    case isTrue hle =>
      refine List.pairwise_cons.2 ⟨fun g hg => ?_, h⟩
      rcases List.mem_cons.1 hg with rfl | hg
      · exact hle
      · exact Std.TransCmp.isLE_trans hle (hfirst g hg)
    case isFalse hgt =>
      refine List.pairwise_cons.2 ⟨fun g hg => ?_, ih hrest⟩
      rcases List.mem_cons.1 ((insertFile_perm file rest).mem_iff.1 hg) with rfl | hg
      · have hswap : compare f.2 g.2 = (compare g.2 f.2).swap := Std.OrientedCmp.eq_swap
        rw [hswap]
        cases hc : compare g.2 f.2 <;> simp_all
      · exact hfirst g hg

theorem readAll_files {d : Directory} {es : List (Path × Node)}
    (hown : ∀ e ∈ es, e.2.definedAt = e.1) (hkept : ∀ e ∈ es, keeps d.nesting e.2 = true) :
    ∃ files, d.readAll (es.map fileOf) = .ok files ∧ InOrder files ∧
      files.Perm (es.map fun e => (fileName e.1, e.1)) := by
  induction es with
  | nil => exact ⟨[], rfl, List.Pairwise.nil, List.Perm.refl _⟩
  | cons e rest ih =>
    obtain ⟨path, n⟩ := e
    rw [List.forall_mem_cons] at hown hkept
    obtain ⟨files, hfiles, horder, hperm⟩ := ih hown.2 hkept.2
    have hread := read_own hown.1 hkept.1 (fileName path)
    refine ⟨insertFile (fileName path, path) files, ?_, inOrder_insertFile horder,
      (insertFile_perm _ _).trans (hperm.cons _)⟩
    simp only [List.map_cons, fileOf] at hfiles ⊢
    simp [readAll, isSnapshotName_fileName, hread, hfiles, bind, Except.bind, pure, Except.pure]

/-! ## Mirrors -/

/-- The paths have different file names. -/
def Apart (known : List Path) : Prop :=
  ∀ p ∈ known, ∀ q ∈ known, fileName p = fileName q → p = q

theorem Apart.beq {known : List Path} (h : Apart known) {p q : Path} (hp : p ∈ known)
    (hq : q ∈ known) : (fileName p == fileName q) = (p == q) := by
  rw [Bool.eq_iff_iff, beq_iff_eq, beq_iff_eq]
  exact ⟨h p hp q hq, congrArg fileName⟩

/-- The directory holds the files of the snapshots in memory and nothing else. All of them are at
known paths and can be read back. -/
structure Mirrors (known : List Path) (nesting : Nat) (d : Directory) (m : Memory) : Prop where
  root : d.root.isEmpty = false
  limit : d.nesting = nesting
  place : d.place = .absent ∨ ∃ es, d.place = .directory es
  files : d.entries.Perm (m.entries.map fileOf)
  named : Keyed.Sorted d.entries
  sorted : Keyed.Sorted m.entries
  own : ∀ e ∈ m.entries, e.2.definedAt = e.1
  kept : ∀ e ∈ m.entries, keeps nesting e.2 = true
  known : ∀ e ∈ m.entries, e.1 ∈ known

section
variable {known : List Path} {nesting : Nat} {d : Directory} {m : Memory}

theorem Mirrors.entry? (h : d.Mirrors known nesting m) (hapart : Apart known) {path : Path}
    (hpath : path ∈ known) :
    d.entry? (fileName path) =
      (m.load path).map fun n => .text (Snapshot.text ⟨path, n⟩) := by
  rw [Directory.entry?]
  cases hload : m.load path with
  | some n =>
    have hfile : fileOf (path, n) ∈ d.entries :=
      h.files.mem_iff.2 (List.mem_map_of_mem (Keyed.mem_of_lookup hload))
    exact Keyed.lookup_of_mem h.named hfile
  | none =>
    cases hentry : d.entries.lookup (fileName path) with
    | none => rfl
    | some entry =>
      obtain ⟨e, he, hfile⟩ := List.mem_map.1 (h.files.mem_iff.1 (Keyed.mem_of_lookup hentry))
      obtain rfl : e.1 = path := hapart _ (h.known e he) _ hpath (Prod.mk.inj hfile).1
      have hsome := Keyed.lookup_of_mem h.sorted he
      rw [← Memory.load, hload] at hsome
      cases hsome

theorem Mirrors.load (h : d.Mirrors known nesting m) (hapart : Apart known) {path : Path}
    (hpath : path ∈ known) : d.load path = .ok (m.load path) := by
  rw [Directory.load, h.entry? hapart hpath]
  cases hload : m.load path with
  | none => rfl
  | some n =>
    have hmem := Keyed.mem_of_lookup hload
    have hkept := h.kept _ hmem
    rw [← h.limit] at hkept
    have hread := read_own (h.own _ hmem) hkept (fileName path)
    simp [hread, Except.map]

theorem Mirrors.filter (h : d.Mirrors known nesting m) (keepName : String → Bool)
    (keep : Path → Bool) (hkeep : ∀ e ∈ m.entries, keepName (fileName e.1) = keep e.1) :
    (d.entries.filter fun e => keepName e.1).Perm
      ((m.entries.filter fun e => keep e.1).map fileOf) := by
  have hmap : (m.entries.map fileOf).filter (fun e => keepName e.1) =
      (m.entries.filter fun e => keep e.1).map fileOf := by
    rw [List.filter_map]
    exact congrArg (List.map fileOf) (List.filter_congr hkeep)
  rw [← hmap]
  exact h.files.filter _

theorem Mirrors.scan (h : d.Mirrors known nesting m) :
    d.scan = .ok (m.entries.map fun e => (fileName e.1, e.1)) := by
  obtain ⟨es, hes, hperm⟩ :
      ∃ es : List (Path × Node), d.entries = es.map fileOf ∧ es.Perm m.entries := by
    have hcomp : Relation.Comp (· = List.map fileOf ·) List.Perm d.entries m.entries := by
      rw [List.eq_map_comp_perm]
      exact h.files
    exact hcomp
  have hown : ∀ e ∈ es, e.2.definedAt = e.1 := fun e he => h.own e (hperm.mem_iff.1 he)
  have hkept : ∀ e ∈ es, keeps d.nesting e.2 = true := fun e he => by
    rw [h.limit]
    exact h.kept e (hperm.mem_iff.1 he)
  obtain ⟨files, hfiles, horder, hsame⟩ := readAll_files hown hkept
  have hsorted : InOrder (m.entries.map fun e => (fileName e.1, e.1)) := by
    rw [InOrder, List.pairwise_map]
    exact h.sorted.imp fun hlt => by rw [hlt]; rfl
  -- Files with one path have one name, so there is only one such order.
  have hfound : files = m.entries.map fun e => (fileName e.1, e.1) := by
    refine List.Perm.eq_of_pairwise ?_ horder hsorted (hsame.trans (hperm.map _))
    intro a b ha hb hab hba
    obtain ⟨e, -, rfl⟩ := List.mem_map.1 (hsame.mem_iff.1 ha)
    obtain ⟨f, -, rfl⟩ := List.mem_map.1 hb
    have hpath : e.1 = f.1 := Std.LawfulEqOrd.eq_of_compare (Std.OrientedCmp.isLE_antisymm hab hba)
    rw [hpath]
  rw [← hfound, ← hfiles, ← hes, Directory.scan]
  rcases h.place with hplace | ⟨own, hplace⟩
  · simp only [hplace, entries]
    rfl
  · simp [hplace, entries, h.root]

/-! ## Changes -/

theorem Mirrors.save (h : d.Mirrors known nesting m) (hapart : Apart known) {node : Node}
    (hkept : keeps nesting node = true) (hknown : node.definedAt ∈ known) :
    ∃ d', d.save node = .ok d' ∧ d'.Mirrors known nesting (m.save node) := by
  let name := fileName node.definedAt
  have hentry := h.entry? hapart hknown
  have hsave : d.save node = .ok (d.withFile name (Snapshot.text ⟨node.definedAt, node⟩)) := by
    rw [Directory.save, hentry]
    rcases h.place with hplace | ⟨own, hplace⟩ <;>
      cases m.load node.definedAt <;> simp [hplace, name]
  have hmem {e : Path × Node} (he : e ∈ (m.save node).entries) :
      e = (node.definedAt, node) ∨ e ∈ m.entries := Keyed.mem_keys_insert he
  -- Only this path has its file name, so no other snapshot is lost with the old file.
  have herase : (Keyed.erase name d.entries).Perm
      ((Keyed.erase node.definedAt m.entries).map fileOf) := by
    refine h.filter (fun n => !(n == name)) (fun p => !(p == node.definedAt)) fun e he => ?_
    rw [hapart.beq (h.known e he) hknown]
  refine ⟨_, hsave, ?_⟩
  constructor
  case root => exact h.root
  case limit => exact h.limit
  case place => exact .inr ⟨_, rfl⟩
  case files =>
    refine (Keyed.insert_perm _ _ h.named).trans ?_
    refine (herase.cons _).trans ?_
    exact ((Keyed.insert_perm node.definedAt node h.sorted).map fileOf).symm
  case named => exact Keyed.sorted_insert _ _ h.named
  case sorted => exact Keyed.sorted_insert _ _ h.sorted
  all_goals
    intro e he
    rcases hmem he with rfl | he
  · rfl
  · exact h.own e he
  · exact hkept
  · exact h.kept e he
  · exact hknown
  · exact h.known e he

theorem Mirrors.part (h : d.Mirrors known nesting m) {d' : Directory} (keepName : String → Bool)
    (keep : Path → Bool) (hroot : d'.root = d.root) (hnesting : d'.nesting = d.nesting)
    (hplace : d'.place = .absent ∨ ∃ es, d'.place = .directory es)
    (hentries : d'.entries = d.entries.filter fun e => keepName e.1)
    (hkeep : ∀ e ∈ m.entries, keepName (fileName e.1) = keep e.1) :
    d'.Mirrors known nesting ⟨m.entries.filter fun e => keep e.1⟩ where
  root := by rw [hroot]; exact h.root
  limit := hnesting.trans h.limit
  place := hplace
  files := by rw [hentries]; exact h.filter _ _ hkeep
  named := by rw [hentries]; exact h.named.filter _
  sorted := h.sorted.filter _
  own e he := h.own e (List.mem_filter.1 he).1
  kept e he := h.kept e (List.mem_filter.1 he).1
  known e he := h.known e (List.mem_filter.1 he).1

theorem Mirrors.removeWhere (h : d.Mirrors known nesting m) (hapart : Apart known)
    (condition : Path → Bool) :
    ∃ d', d.removeWhere condition = .ok ((m.removeWhere condition).1, d') ∧
      d'.Mirrors known nesting (m.removeWhere condition).2 := by
  let names := (m.entries.filter fun e => condition e.1).map fun e => fileName e.1
  have hnames : ((m.entries.map fun e => (fileName e.1, e.1)).filter fun f => condition f.2).map
      Prod.fst = names := by
    rw [List.filter_map, List.map_map]
    rfl
  have hcount : names.length = (m.removeWhere condition).1 := by
    rw [Memory.count_removeWhere, List.length_map]
  -- Files are removed by name, and no snapshot that stays shares its name with one that goes.
  have hkeep : ∀ e ∈ m.entries, (!names.contains (fileName e.1)) = !condition e.1 := by
    intro e he
    rw [Bool.not_inj_iff, Bool.eq_iff_iff, List.contains_iff_mem, List.mem_map]
    constructor
    · rintro ⟨f, hf, hname⟩
      obtain ⟨hf, hcondition⟩ := List.mem_filter.1 hf
      rwa [← hapart _ (h.known f hf) _ (h.known e he) hname]
    · exact fun hcondition => ⟨e, List.mem_filter.2 ⟨he, hcondition⟩, rfl⟩
  have hremove : d.removeWhere condition = .ok ((m.removeWhere condition).1,
      if names.isEmpty then d else d.withoutFiles names) := by
    simp only [Directory.removeWhere, h.scan, bind, Except.bind, hnames, hcount]
    rfl
  refine ⟨_, hremove, ?_⟩
  refine h.part (fun n => !names.contains n) (fun p => !condition p) ?_ ?_ ?_ ?_ hkeep
  · split <;> rfl
  · split <;> rfl
  · split
    · exact h.place
    · exact .inr ⟨_, rfl⟩
  · split
    case isTrue hnone => simp [List.isEmpty_iff.1 hnone]
    case isFalse => rfl

theorem Mirrors.delete (h : d.Mirrors known nesting m) (hapart : Apart known) {path : Path}
    (hknown : path ∈ known) (below : Bool) :
    ∃ d', d.delete path below = .ok ((m.delete path below).1, d') ∧
      d'.Mirrors known nesting (m.delete path below).2 := by
  cases below with
  | true => exact h.removeWhere hapart fun p => p.extends? path
  | false =>
    -- One file is removed without a scan, and there is one or none.
    have hentry := h.entry? hapart hknown
    have hcount : (m.delete path false).1 = if path ∈ m.entries.map Prod.fst then 1 else 0 :=
      (m.count_removeWhere _).trans (Keyed.length_filter_key (Keyed.nodup_of_sorted h.sorted) path)
    have hsome : (m.load path).isSome = true ↔ path ∈ m.entries.map Prod.fst :=
      Keyed.lookup_isSome_iff
    cases hload : m.load path with
    | none =>
      rw [hload] at hentry hsome
      have hnot : path ∉ m.entries.map Prod.fst := by simpa using hsome
      have hsame : (m.delete path false).2 = m := by
        have hall : m.entries.filter (fun e => !(e.1 == path)) = m.entries := by
          refine List.filter_eq_self.2 fun e he => ?_
          have hne : e.1 ≠ path := by
            rintro rfl
            exact hnot (List.mem_map_of_mem he)
          simp [hne]
        exact congrArg Memory.mk hall
      refine ⟨d, ?_, ?_⟩
      · simp [Directory.delete, hentry, hcount, hnot]
      · rw [hsame]
        exact h
    | some n =>
      rw [hload] at hentry hsome
      have hstored : path ∈ m.entries.map Prod.fst := hsome.1 rfl
      refine ⟨d.withoutFiles [fileName path], ?_, ?_⟩
      · simp [Directory.delete, hentry, hcount, hstored]
      · refine h.part (fun name => !([fileName path].contains name)) (fun p => !(p == path)) rfl rfl
          (.inr ⟨_, rfl⟩) rfl fun e he => ?_
        rw [← hapart.beq (h.known e he) hknown, List.contains_cons, List.contains_nil,
          Bool.or_false]

theorem Mirrors.list (h : d.Mirrors known nesting m) (name : String)
    (properties : List (String × String)) :
    d.list name properties = .ok (m.list name properties) := by
  simp [Directory.list, h.scan, Memory.list, Except.map]
  rfl

end

end Store.Directory

end ScopedConfig
