import ScopedConfig.Proofs.ReadBack
import ScopedConfig.Proofs.Stable

/-!
# Saving twice

A node that is stamped against its own stamp keeps it: every part meets the part that it became, by
name, by position or by key. So a save that follows the same save writes nothing.
-/

namespace ScopedConfig

open Scope (Path)

namespace Stamp

open Schema Node

variable (s : Schema) (target : Path)

mutual

/-- No set holds two items that are stamped by one key, at any depth. -/
def keysDiffer (role : Role) : Node → Bool
  | .simple .. | .list _ none | .set _ none | .map _ none => true
  | .complex info own declared => fieldsDiffer (recordOf s role (.complex info own declared)) own
  | .list _ (some own) => itemsDiffer role own
  | .set _ (some own) => decide (own.map (keyOf s role)).Nodup && itemsDiffer role own
  | .map _ (some own) => entriesDiffer role own

def fieldsDiffer (record : Option Record) : List (String × Node) → Bool
  | [] => true
  | (name, n) :: rest => keysDiffer (propertyRole record name) n && fieldsDiffer record rest

def itemsDiffer (role : Role) : List Node → Bool
  | [] => true
  | n :: rest => keysDiffer (itemRole s role n) n && itemsDiffer role rest

def entriesDiffer (role : Role) : List (String × Node) → Bool
  | [] => true
  | (_, n) :: rest => keysDiffer (itemRole s role n) n && entriesDiffer role rest

end

section
variable {s} {role : Role}

theorem fieldsDiffer_iff {record : Option Record} {own : List (String × Node)} :
    fieldsDiffer s record own = true ↔
      ∀ e ∈ own, keysDiffer s (propertyRole record e.1) e.2 = true := by
  induction own with
  | nil => simp [fieldsDiffer]
  | cons e rest ih => simp [fieldsDiffer, ih]

theorem itemsDiffer_iff {own : List Node} :
    itemsDiffer s role own = true ↔ ∀ n ∈ own, keysDiffer s (itemRole s role n) n = true := by
  induction own with
  | nil => simp [itemsDiffer]
  | cons n rest ih => simp [itemsDiffer, ih]

theorem entriesDiffer_iff {own : List (String × Node)} :
    entriesDiffer s role own = true ↔
      ∀ e ∈ own, keysDiffer s (itemRole s role e.2) e.2 = true := by
  induction own with
  | nil => simp [entriesDiffer]
  | cons e rest ih => simp [entriesDiffer, ih]

/-! ## What the parts meet

Two earlier nodes give the same stamps if they give each part the same stamp.
-/

theorem stampProperties_congr {record : Option Record} {before before' above : Option Node}
    {own : List (String × Node)}
    (h : ∀ e ∈ own,
      stamp s target (propertyRole record e.1) (before.bind fun p => p.property? e.1)
          (above.bind fun a => a.property? e.1) e.2 =
        stamp s target (propertyRole record e.1) (before'.bind fun p => p.property? e.1)
          (above.bind fun a => a.property? e.1) e.2) :
    stampProperties s target record before above own =
      stampProperties s target record before' above own := by
  induction own with
  | nil => rfl
  | cons e rest ih =>
    obtain ⟨name, child⟩ := e
    rw [stampProperties, stampProperties, h (name, child) List.mem_cons_self,
      ih fun e he => h e (List.mem_cons_of_mem _ he)]

theorem stampSet_congr {before before' above : Option (List Node)} {own : List Node}
    (h : ∀ n ∈ own,
      stamp s target (itemRole s role n) (withKey s role before (keyOf s role n))
          (withKey s role above (keyOf s role n)) n =
        stamp s target (itemRole s role n) (withKey s role before' (keyOf s role n))
          (withKey s role above (keyOf s role n)) n) :
    stampSet s target role before above own = stampSet s target role before' above own := by
  induction own with
  | nil => rfl
  | cons n rest ih =>
    rw [stampSet, stampSet, h n List.mem_cons_self, ih fun m hm => h m (List.mem_cons_of_mem _ hm)]

theorem stampEntries_congr {before before' above : Option Node} {own : List (String × Node)}
    (h : ∀ e ∈ own,
      stamp s target (itemRole s role e.2)
          (before.bind fun p => p.entries?.bind fun es => es.lookup e.1)
          (above.bind fun a => a.entries?.bind fun es => es.lookup e.1) e.2 =
        stamp s target (itemRole s role e.2)
          (before'.bind fun p => p.entries?.bind fun es => es.lookup e.1)
          (above.bind fun a => a.entries?.bind fun es => es.lookup e.1) e.2) :
    stampEntries s target role before above own = stampEntries s target role before' above own := by
  induction own with
  | nil => rfl
  | cons e rest ih =>
    obtain ⟨key, entry⟩ := e
    rw [stampEntries, stampEntries, h (key, entry) List.mem_cons_self,
      ih fun e he => h e (List.mem_cons_of_mem _ he)]

theorem stampList_again {before above own : List Node}
    (h : ∀ n ∈ own, ∀ previous ancestor,
      stamp s target (itemRole s role n)
          (some (stamp s target (itemRole s role n) previous ancestor n)) ancestor n =
        stamp s target (itemRole s role n) previous ancestor n) :
    stampList s target role (stampList s target role before above own) above own =
      stampList s target role before above own := by
  induction own generalizing before above with
  | nil => rfl
  | cons n rest ih =>
    rw [stampList, stampList, List.head?_cons, List.tail_cons, h n List.mem_cons_self,
      ih fun m hm => h m (List.mem_cons_of_mem _ hm)]

theorem withKey_stampSet {before above : Option (List Node)} {own : List Node} {n : Node}
    (hkeys : (own.map (keyOf s role)).Nodup) (hn : n ∈ own) :
    withKey s role (some (stampSet s target role before above own)) (keyOf s role n) =
      some (stamp s target (itemRole s role n) (withKey s role before (keyOf s role n))
        (withKey s role above (keyOf s role n)) n) := by
  induction own with
  | nil => cases hn
  | cons m rest ih =>
    obtain ⟨hnew, hrest⟩ := List.nodup_cons.1 hkeys
    rw [stampSet, withKey, Option.getD_some, List.find?_cons, keyOf_stamp]
    rcases List.mem_cons.1 hn with rfl | hlater
    · simp
    · have hne : keyOf s role m ≠ keyOf s role n := fun hsame =>
        hnew (hsame ▸ List.mem_map_of_mem hlater)
      rw [beq_eq_false_iff_ne.2 hne]
      exact ih hrest hlater

end

/-! ## The same stamp -/

theorem stampInfo_again (role : Role) (previous ancestor : Option Node) {n : Node}
    (hordered : n.isOrdered = true) :
    stampInfo target (some (stamp s target role previous ancestor n)) ancestor n =
      stampInfo target previous ancestor n := by
  have hsame : (stamp s target role previous ancestor n).sameContent n = true :=
    (alike_stamp s target role previous ancestor n).sameContent (by rwa [isOrdered_stamp])
  simp [stampInfo, versionAfter, hsame]

/-- A stamp stays when the node is stamped against it. -/
theorem stamp_again (role : Role) (previous ancestor : Option Node) {n : Node}
    (hordered : n.isOrdered = true) (hkeys : keysDiffer s role n = true) :
    stamp s target role (some (stamp s target role previous ancestor n)) ancestor n =
      stamp s target role previous ancestor n := by
  -- The first stamp stands at the same name, key or place, so each node is compared with its own.
  induction n using tree_induction generalizing role previous ancestor with
  | simple | absentList | absentSet | absentMap =>
    have hinfo := stampInfo_again s target role previous ancestor hordered
    simp only [stamp] at hinfo ⊢
    rw [hinfo]
  | complex info own declared ih =>
    have hinfo := stampInfo_again s target role previous ancestor hordered
    obtain ⟨hsorted, hown⟩ := complex_ordered_iff.1 hordered
    rw [keysDiffer, fieldsDiffer_iff] at hkeys
    simp only [stamp] at hinfo ⊢
    rw [hinfo]
    congr 1
    refine stampProperties_congr target fun e he => ?_
    rw [Option.bind_some, property?, properties?, Option.bind_some,
      lookup_stampProperties, Keyed.lookup_of_mem hsorted he, Option.map_some]
    exact ih e he _ _ _ (hown e he) (hkeys e he)
  | list info own ih =>
    have hinfo := stampInfo_again s target role previous ancestor hordered
    rw [keysDiffer, itemsDiffer_iff] at hkeys
    have hown := items_ordered hordered
    simp only [stamp] at hinfo ⊢
    rw [hinfo, Option.bind_some, items?, Option.getD_some]
    congr 2
    exact stampList_again target fun n hn _ _ => ih n hn _ _ _ (hown n hn) (hkeys n hn)
  | set info own ih =>
    have hinfo := stampInfo_again s target role previous ancestor hordered
    rw [keysDiffer, Bool.and_eq_true, decide_eq_true_eq, itemsDiffer_iff] at hkeys
    have hown := items_ordered hordered
    simp only [stamp] at hinfo ⊢
    rw [hinfo, Option.bind_some, items?]
    congr 2
    refine stampSet_congr target fun n hn => ?_
    rw [withKey_stampSet target hkeys.1 hn]
    exact ih n hn _ _ _ (hown n hn) (hkeys.2 n hn)
  | map info own ih =>
    have hinfo := stampInfo_again s target role previous ancestor hordered
    obtain ⟨hsorted, hown⟩ := map_ordered_iff.1 hordered
    rw [keysDiffer, entriesDiffer_iff] at hkeys
    simp only [stamp] at hinfo ⊢
    rw [hinfo]
    congr 2
    refine stampEntries_congr target fun e he => ?_
    rw [Option.bind_some, entries?, Option.bind_some, lookup_stampEntries,
      Keyed.lookup_of_mem hsorted he, Option.map_some]
    exact ih e he _ _ _ (hown e he) (hkeys e he)

end Stamp

namespace Store

open ScopedConfig.Except

variable {rules : Rules} {st saved : Store} {path : Path} {typeName : String}

theorem saveWith_kind {node stamped : Node} {loaded : Option Int}
    (h : st.saveWith rules path typeName node loaded = .ok (stamped, saved)) :
    node.kind = .complex := by
  obtain ⟨type, -, h⟩ := bind_eq_ok.1 h
  by_contra hkind
  rw [if_pos hkind] at h
  cases h

/-- After a save the same save finds its node stored, and the levels above as they were. -/
theorem saveWith_again {node stamped : Node} {loaded : Option Int} (hst : st.Keeps)
    (hordered : node.isOrdered = true)
    (hkeys : ∀ type, rules.schema.find? typeName = some type →
      Stamp.keysDiffer rules.schema (.type type) node = true)
    (h : st.saveWith rules path typeName node loaded = .ok (stamped, saved)) :
    saved.saveWith rules path typeName node none = .ok (stamped, saved) := by
  obtain ⟨type, previous, above, htype, -, habove, hstamped, -⟩ := saveWith_ok h
  have hfind := Merge.require_ok (Rules.rootType_ok.1 htype).2.2
  have hkind := saveWith_kind h
  have hsame : Stamp.forSave rules.schema type (some stamped) node above path = stamped := by
    rw [hstamped]
    exact Stamp.stamp_again rules.schema path _ previous above hordered (hkeys type hfind)
  have habove' := (ancestor_saved hst h).trans habove
  rw [saveWith, htype, (load_saved hst h).1]
  simp [bind, Except.bind, hkind, habove', hsame, commit]

end Store

/-- Saving a node twice is saving it once. Whatever was stored before, the second save answers with
the node that the first one answered with, all versions and parent records included, and leaves the
store as it is, if no set of the node holds two items that are stamped by one key. -/
theorem save_twice {rules : Rules} {st : Store} {capacity : Nat} {before : List Call} {s : Service}
    {path : Path} {typeName : String} {node stamped : Node} {first : Answer Node} (hst : st.Keeps)
    (hs : (Service.start st capacity).after rules before = s) (hordered : node.isOrdered = true)
    (hkeys : ∀ type, rules.schema.find? typeName = some type →
      Stamp.keysDiffer rules.schema (.type type) node = true)
    (hsave : s.save rules path typeName node = first) (hok : first.result = .ok stamped) :
    (first.service.save rules path typeName node).result = .ok stamped ∧
      (first.service.save rules path typeName node).service.store = first.service.store := by
  subst hs hsave
  obtain ⟨-, hover⟩ := Service.run_spec rules before (Service.start_over st capacity) hst
  have hst' := Store.after_keeps rules before hst
  obtain ⟨st', hsaved, hoverSaved⟩ := Service.saveWith_ok hover hst' hok
  have hagain := Store.saveWith_again hst' hordered hkeys hsaved
  obtain ⟨hresult, -, hoverAgain⟩ := Service.saveWith_spec rules path typeName node none hoverSaved
    (Store.saveWith_keeps hst' hsaved)
  rw [hagain] at hresult hoverAgain
  exact ⟨hresult, hoverAgain.store.trans hoverSaved.store.symm⟩

namespace Sample

/-- The user's hosts replace an earlier one. The last is told apart by its whole content. -/
def ownHosts : Node := hosts [named "a", named "b", labelled "Alias" "name" (string "b")]

def resavedHosts : Answer Node :=
  (Service.start (.memory .empty) 2 |>.after hostRules
    [.save global "App" (hosts [named "a"]), .save alice "App" (hosts [named "b"])]).save
      hostRules alice "App" ownHosts

theorem hosts_saved_twice :
    Stamp.keysDiffer hostRules.schema (.type inventory) ownHosts = true ∧
      ∃ stamped, resavedHosts.result = .ok stamped ∧ stamped.version = 2 ∧
        (resavedHosts.service.save hostRules alice "App" ownHosts).result = .ok stamped ∧
        (resavedHosts.service.save hostRules alice "App" ownHosts).service.store =
          resavedHosts.service.store := by
  have hkeys : ∀ type, hostRules.schema.find? "App" = some type →
      Stamp.keysDiffer hostRules.schema (.type type) ownHosts = true := by
    rintro type htype
    cases htype
    decide
  have hok : resavedHosts.result = .ok _ := rfl
  have htwice := save_twice (Store.keeps_memory .empty) rfl (by decide) hkeys rfl hok
  exact ⟨hkeys inventory rfl, _, hok, by decide, htwice⟩

end Sample

end ScopedConfig
