import ScopedConfig.Proofs.Admission
import ScopedConfig.Proofs.Alike
import ScopedConfig.Proofs.Change
import ScopedConfig.Proofs.Levels
import ScopedConfig.Proofs.Staleness

/-!
# Saving to files

A save leaves a directory as it is or writes the file of its path. What it writes can be read back,
as far as 64 bits hold the new versions, because what it goes by was read itself.
-/

namespace ScopedConfig

open Scope (Path)
open ScopedConfig.Except

/-! ## Any store -/

namespace Service

variable {s : Service} {st : Store}

/-- Whatever the cache makes of it, a save answers and changes the store as the store alone does. -/
theorem saveWith_store (rules : Rules) (path : Path) (typeName : String) (node : Node)
    (loaded : Option Int) (h : s.Over st) :
    (s.saveWith rules path typeName node loaded).result =
        (st.saveWith rules path typeName node loaded).map Prod.fst ∧
      (s.saveWith rules path typeName node loaded).service.store =
        st.afterwards (st.saveWith rules path typeName node loaded) := by
  rcases saveWith_cases rules path typeName node loaded h with
    ⟨e, s', hservice, hstore, hover⟩ | ⟨stamped, previous, s', -, hservice, hstore, hover⟩
  · rw [hservice, hstore]
    exact ⟨rfl, hover.store⟩
  · rw [hservice, hstore, commit, Store.commit, hover.store]
    split
    · exact ⟨rfl, hover.store⟩
    · cases write st stamped previous loaded with
      | error e => exact ⟨rfl, rfl⟩
      | ok st' => exact ⟨rfl, rfl⟩

end Service

theorem Store.kind_of_saveWith {rules : Rules} {st st' : Store} {path : Path} {typeName : String}
    {node stamped : Node} {loaded : Option Int}
    (h : st.saveWith rules path typeName node loaded = .ok (stamped, st')) :
    node.kind = .complex := by
  obtain ⟨type, -, h⟩ := bind_eq_ok.1 h
  by_contra hkind
  rw [if_pos hkind] at h
  cases h

/-! ## What can be read back -/

namespace Node

variable {f : Info → Info} {a b n : Node}

theorem inOrder_mapInfo (n : Node) : (n.mapInfo f).InOrder ↔ n.InOrder := by
  cases n with
  | simple => exact .rfl
  | complex i own declared =>
    rw [mapInfo, InOrder, InOrder, sorted_mapInfoFields]
  | list _ own | set _ own => cases own <;> exact .rfl
  | map _ own =>
    cases own with
    | none => exact .rfl
    | some own => rw [mapInfo, InOrder, InOrder, sorted_mapInfoFields]

theorem isOrdered_of_everywhere (h : n.Everywhere InOrder) : n.isOrdered = true := by
  induction n using tree_induction with
  | simple | absentList | absentSet | absentMap => rfl
  | complex i own declared ih =>
    obtain ⟨hhere, hown⟩ := everywhere_complex.1 h
    exact complex_ordered_iff.2 ⟨hhere.1, fun e he => ih e he (hown e he)⟩
  | list i own ih | set i own ih =>
    rw [isOrdered, itemsOrdered_iff]
    exact fun n hn => ih n hn (h.children n hn)
  | map i own ih =>
    obtain ⟨hhere, hown⟩ := everywhere_map.1 h
    exact map_ordered_iff.2 ⟨hhere, fun e he => ih e he (hown e he)⟩

theorem depth_mapInfo (n : Node) : (n.mapInfo f).toJson.depth = n.toJson.depth := by
  have fields {own : List (String × Node)}
      (ih : ∀ e ∈ own, (e.2.mapInfo f).toJson.depth = e.2.toJson.depth) :
      Json.depthMembers (fieldsToJson (mapInfoFields f own)) =
        Json.depthMembers (fieldsToJson own) := by
    refine eq_of_forall_ge_iff fun d => ?_
    rw [depthMembers_fields, depthMembers_fields, mapInfoFields_eq, List.forall_mem_map]
    exact forall₂_congr fun e he => by rw [ih e he]
  have items {own : List Node} (ih : ∀ n ∈ own, (n.mapInfo f).toJson.depth = n.toJson.depth) :
      Json.depthItems (itemsToJson (mapInfoItems f own)) = Json.depthItems (itemsToJson own) := by
    refine eq_of_forall_ge_iff fun d => ?_
    rw [depthItems_items, depthItems_items, mapInfoItems_eq, List.forall_mem_map]
    exact forall₂_congr fun n hn => by rw [ih n hn]
  induction n using tree_induction with
  | simple i text => cases text <;> simp only [mapInfo, toJson, depth_withMeta]
  | absentList | absentSet | absentMap => simp only [mapInfo, toJson, depth_withMeta]
  | complex i own declared ih => rw [mapInfo, depth_complex, depth_complex, fields ih]
  | list i own ih | set i own ih =>
    simp only [mapInfo, toJson, depth_withMeta, Json.depthMembers, Json.depth, items ih]
  | map i own ih =>
    simp only [mapInfo, toJson, depth_withMeta, Json.depthMembers, Json.depth, fields ih]

theorem Alike.inOrder (h : a.Alike b) : a.Everywhere InOrder ↔ b.Everywhere InOrder := by
  have hmap (n : Node) := everywhere_mapInfo (n := n)
    (inOrder_mapInfo (f := Info.unstamped a.definedAt))
  rw [← hmap, h, hmap]

theorem Alike.depth (h : a.Alike b) : a.toJson.depth = b.toJson.depth := by
  have hmap := depth_mapInfo (f := Info.unstamped a.definedAt)
  rw [← hmap, h, hmap]

end Node

namespace Stamp

open Node

variable {s : Schema} {type : Schema.Record} {target : Path} {previous above : Option Node}
  {current : Node} {nesting : Nat}

/-- The version fits into 64 bits, and the next one does, too. -/
def Grows (n : Node) : Prop := Text.fitsInt64 n.version = true ∧ n.version < Text.maxInt64

theorem fits_versionAfter (n : Node) (h : ∀ p, previous = some p → Grows p) :
    Text.fitsInt64 (versionAfter previous n) = true := by
  simp only [Grows, Text.fitsInt64, Bool.and_eq_true, decide_eq_true_eq] at h ⊢
  exact versionAfter_bounds (by decide) fun p hp => ⟨(h p hp).1.1, (h p hp).2⟩

theorem info_stored (htarget : target.isReadable = true)
    (hprevious : ∀ p, previous = some p → p.Everywhere Grows)
    (habove : ∀ a, above = some a → a.Everywhere fun m => Text.fitsInt64 m.version = true) :
    (forSave s type previous current above target).Everywhere fun m =>
      m.info.isStorable = true := by
  intro m hm
  obtain ⟨role, before, parent, given, rfl, hbefore, hparent⟩ := stampedWithin_of_contains hm
  -- The new version fits because the one before it leaves room.
  have hversion : Text.fitsInt64 (versionAfter before given) = true := by
    refine fits_versionAfter given fun p hp => ?_
    obtain ⟨root, hroot, hreach⟩ := hbefore p hp
    exact hprevious root hroot p hreach
  have hparentVersion : Text.fitsInt64 ((parent.map Node.version).getD 0) = true := by
    cases parent with
    | none => rfl
    | some a =>
      obtain ⟨root, hroot, hreach⟩ := hparent a rfl
      exact habove root hroot a hreach
  rw [info_stamp]
  simp [stampInfo, Info.isStorable, htarget, hversion, hparentVersion]

theorem keeps_forSave (htarget : target.isReadable = true)
    (hprevious : ∀ p, previous = some p → p.Everywhere Grows)
    (habove : ∀ a, above = some a → a.Everywhere fun m => Text.fitsInt64 m.version = true)
    (horder : current.Everywhere InOrder) (hdepth : current.toJson.depth < nesting) :
    Store.Directory.keeps nesting (forSave s type previous current above target) = true := by
  have halike : (forSave s type previous current above target).Alike current :=
    alike_stamp s target (.type type) previous above current
  have hstored : (forSave s type previous current above target).Everywhere fun m =>
      m.info.isStorable = true := info_stored htarget hprevious habove
  rw [Store.Directory.keeps, Bool.and_eq_true, decide_eq_true_eq, isStorable_iff,
    Snapshot.depth_toJson, halike.depth]
  exact ⟨fun m hm => ⟨halike.inOrder.2 horder m hm, hstored m hm⟩, hdepth⟩

end Stamp

/-! ## A directory -/

namespace Store

variable {rules : Rules} {type : Schema.Record} {path : Path} {d d' : Directory}

theorem ancestor_fits {above : Node}
    (h : (directory d).ancestor rules type path = .ok (some above)) :
    above.Everywhere fun m => Text.fitsInt64 m.version = true := by
  cases hparent : path.parent? with
  | none => simp [ancestor, hparent] at h
  | some parent =>
    obtain ⟨levels, total, hlevels, hmerged⟩ := ancestor_ok hparent h
    refine Merge.levels_everywhere ⟨fun _ => id, fun _ => id, fun _ => id, fun _ h _ _ => h⟩ ?_
      hmerged
    intro level hlevel
    obtain ⟨q, -, hstored⟩ := mem_of_mapM hlevels hlevel
    have hadmitted := Directory.admitted_of_load (stored?_eq_some.1 hstored)
    exact fun m hm => (hadmitted.regular m hm).version

namespace Directory

/-- The path's file is read as the node, and every other file is the same. -/
structure Puts (d d' : Directory) (path : Path) (n : Node) : Prop where
  held : d'.load path = .ok (some n)
  files : ∀ name, name ≠ fileName path → d'.entry? name = d.entry? name
  /-- That holds of the snapshots too, as far as the hash tells the texts of paths apart. -/
  others : ∀ q, q ≠ path → (key path = key q → path.text = q.text) → d'.load q = d.load q

theorem puts_self {n : Node} (h : d.load path = .ok (some n)) : d.Puts d path n :=
  ⟨h, fun _ _ => rfl, fun _ _ _ => rfl⟩

theorem puts_withFile {n : Node} (hplace : n.definedAt = path)
    (hkept : keeps d.nesting n = true) :
    d.Puts (d.withFile (fileName path) (Snapshot.text ⟨path, n⟩)) path n where
  held := by
    have hread := read_own (d := d.withFile (fileName path) (Snapshot.text ⟨path, n⟩)) hplace hkept
      (fileName path)
    rw [load, entry?_withFile, beq_self_eq_true, if_pos rfl]
    simp only [hread]
    rfl
  files name hname := by
    rw [entry?_withFile, beq_eq_false_iff_ne.2 hname]
    rfl
  others q hq hhash := (SameAt.withFile (fileName_ne (Ne.symm hq) hhash) _).load

end Directory

theorem withFile_of_write {st' : Store} {stamped : Node} {previous : Option Node}
    {loaded : Option Int} (h : Service.write (directory d) stamped previous loaded = .ok st') :
    st' = directory (d.withFile (Directory.fileName stamped.definedAt)
      (Snapshot.text ⟨stamped.definedAt, stamped⟩)) := by
  have update {version : Int} (h : (directory d).update stamped version = .ok st') :
      st' = directory (d.withFile (Directory.fileName stamped.definedAt)
        (Snapshot.text ⟨stamped.definedAt, stamped⟩)) := by
    obtain ⟨d', hupdate, rfl⟩ := map_eq_ok.1 h
    rw [Directory.withFile_of_update hupdate]
  cases loaded with
  | some version => exact update h
  | none =>
    cases previous with
    | some p => exact update h
    | none =>
      obtain ⟨d', hsave, rfl⟩ := map_eq_ok.1 h
      rw [Directory.withFile_of_save hsave]

/-- A save to a directory puts the stamped node at its path, if the path can be read back, the node
is in order and not too deep, and the versions that are stored at the path leave room. -/
theorem saveWith_puts {typeName : String} {node stamped : Node} {loaded : Option Int} {st' : Store}
    (hpath : path.isReadable = true)
    (hroom : ∀ p, d.load path = .ok (some p) →
      p.Everywhere fun m => m.version < Text.maxInt64)
    (horder : node.Everywhere Node.InOrder) (hdepth : node.toJson.depth < d.nesting)
    (h : (directory d).saveWith rules path typeName node loaded = .ok (stamped, st')) :
    ∃ type previous above d', st' = directory d' ∧ d.load path = .ok previous ∧
      stamped = Stamp.forSave rules.schema type previous node above path ∧
      d.Puts d' path stamped := by
  obtain ⟨type, previous, above, -, hprevious, habove, hstamped, hwritten⟩ := saveWith_ok h
  have hplace : stamped.definedAt = path := by rw [hstamped, Stamp.forSave, Stamp.definedAt_stamp]
  rcases hwritten with ⟨⟨-, hsame⟩, rfl⟩ | hwrite
  · exact ⟨type, previous, above, d, rfl, hprevious, hstamped,
      Directory.puts_self (hsame ▸ hprevious)⟩
  · have hwritten := withFile_of_write hwrite
    rw [hplace] at hwritten
    refine ⟨type, previous, above, _, hwritten, hprevious, hstamped,
      Directory.puts_withFile hplace ?_⟩
    rw [hstamped]
    refine Stamp.keeps_forSave hpath ?_ ?_ horder hdepth
    · rintro p rfl
      have hadmitted := Directory.admitted_of_load hprevious
      exact fun m hm => ⟨(hadmitted.regular m hm).version, hroom p hprevious m hm⟩
    · rintro a rfl
      exact ancestor_fits habove

end Store

end ScopedConfig
