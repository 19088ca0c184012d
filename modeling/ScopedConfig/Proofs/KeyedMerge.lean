import ScopedConfig.Proofs.Collections
import ScopedConfig.Proofs.Failure

/-!
# Merging by keys

The items of two sets, or the entries of two maps, are merged by their keys. A merged collection has
one entry for each key that the entry policies keep, the child's keys first, and what stands there
depends on the first entries that the two sides have with that key, and on the item policy.
-/

namespace ScopedConfig

namespace Keyed

/-! ## Distinct keys -/

theorem eraseDups_of_nodup {κ : Type} [BEq κ] [LawfulBEq κ] {keys : List κ} (h : keys.Nodup) :
    keys.eraseDups = keys := by
  induction keys with
  | nil => rfl
  | cons key rest ih =>
    obtain ⟨hnew, hrest⟩ := List.nodup_cons.1 h
    have hkeep : rest.filter (fun k => !k == key) = rest :=
      List.filter_eq_self.2 fun k hk => by
        have hne : k ≠ key := fun he => hnew (he ▸ hk)
        simpa using hne
    rw [List.eraseDups_cons, hkeep, ih hrest]

theorem eraseDups_snoc {κ : Type} [BEq κ] [LawfulBEq κ] (keys : List κ) (key : κ) :
    (keys ++ [key]).eraseDups =
      if key ∈ keys then keys.eraseDups else keys.eraseDups ++ [key] := by
  rw [List.eraseDups_append]
  by_cases hmem : key ∈ keys
  · have hlast : [key].removeAll keys = [] := List.filter_eq_nil_iff.2 (by simpa using hmem)
    rw [hlast, if_pos hmem, List.eraseDups_nil, List.append_nil]
  · have hlast : [key].removeAll keys = [key] := List.filter_eq_self.2 (by simpa using hmem)
    rw [hlast, if_neg hmem]
    rfl

theorem nodup_eraseDups {κ : Type} [BEq κ] [LawfulBEq κ] (keys : List κ) :
    keys.eraseDups.Nodup := by
  induction keys using List.reverseRecOn with
  | nil => exact List.nodup_nil
  | append_singleton init key ih =>
    rw [eraseDups_snoc]
    split
    case isTrue => exact ih
    case isFalse hnew =>
      refine List.nodup_append.2 ⟨ih, by simp, fun a ha b hb hab => ?_⟩
      rw [hab, List.mem_singleton.1 hb] at ha
      exact hnew (List.mem_eraseDups.1 ha)

end Keyed

namespace Merge

open Schema Node ScopedConfig.Except

/-! ## What a merge by keys gives -/

/-- The entries of a collection in order. The items of a set stand under the keys that tell them
apart. -/
def HasEntries (s : Schema) (p : Property) (place : String) :
    Node → List (String × Node) → Prop
  | .set _ own, entries =>
    own = some (entries.map Prod.snd) ∧ ∀ e ∈ entries, s.itemKey p place e.2 = .ok e.1
  | .map _ own, entries => own = some entries
  | _, _ => False

/-- A key of the child stays if the parent has it, too, or if it may be added. -/
def staysKey (policy : Policy) (above : List String) (key : String) : Bool :=
  key ∈ above || policy.entryAdded = .add

/-- The keys of a merge: those of the child that stay, in order of their first occurrence, then
those of the parent alone unless they are to be removed. -/
def mergedKeys (policy : Policy) (above own : List String) : List String :=
  own.eraseDups.filter (staysKey policy above) ++
    if policy.entryRemoved = .add then above.eraseDups.filter (fun key => key ∉ own) else []

/-- The child with the properties of the parent that it lacks, and nothing else. -/
def IsCompleted (parent : Node) : Node → Node → Prop
  | .complex info own declared, node =>
    ∃ filled, node = .complex info filled declared ∧ Keyed.Sorted filled ∧
      ∀ name, filled.lookup name = (own.lookup name).or (parent.property? name)
  | child, node => node = child

/-- What two entries with one key come to under the item policy. -/
def IsCombined (rules : Rules) (place : String) (p : Property) (key : String)
    (parent child : Node) : ItemPolicy → Node → Prop
  | .useParent, node => node = parent
  | .useChild, node => IsCompleted parent child node
  | .merge, node => ∃ type stale, rules.schema.find? p.typeName = some type ∧
      complex rules (place ++ "[" ++ key ++ "]") type parent child = .ok (node, stale)

/-- What stands for a key. An entry that only one side has stays as it is. -/
def StandsFor (rules : Rules) (place : String) (p : Property) (policy : ItemPolicy)
    (key : String) : Option Node → Option Node → Node → Prop
  | some parent, some child, node => IsCombined rules place p key parent child policy node
  | some parent, none, node => node = parent
  | none, some child, node => node = child
  | none, none, _ => False

/-- The child's collection with these entries instead of its own: a set has them in this order, a
map in the order of the keys. -/
def IsRefilled (merged : List (String × Node)) : Node → Node → Prop
  | .set info _, node => node = .set info (some (merged.map Prod.snd))
  | .map info _, node =>
    ∃ arranged, node = .map info (some arranged) ∧ Keyed.Sorted arranged ∧ arranged.Perm merged
  | _, _ => False

variable {rules : Rules} {place : String} {p : Property} {policy : ItemPolicy}
  {above keyed : List (String × Node)}

/-! ## Two entries -/

theorem backfill_completed {parent child : Node} (hparent : parent.isOrdered = true)
    (hchild : child.isOrdered = true) : IsCompleted parent child (backfill parent child) := by
  cases child with
  | simple | list | set | map => exact backfill_of_kind (by simp [Node.kind])
  | complex info own declared =>
    obtain ⟨hsorted, -⟩ := complex_ordered_iff.1 hchild
    cases parent with
    | complex _ inherited _ =>
      refine ⟨_, rfl, Keyed.sorted_fillFrom inherited hsorted, fun name => ?_⟩
      exact Keyed.lookup_fillFrom own (complex_ordered_iff.1 hparent).1 name
    | simple | list | set | map => exact ⟨own, rfl, hsorted, by simp [property?, properties?]⟩

theorem item_complex {parent child : Node} {key : String} {kept : Option Node} {stale : Totals}
    (h : item rules place p .merge (some parent) key child = .ok (kept, stale)) :
    ∃ type node, rules.schema.find? p.typeName = some type ∧ kept = some node ∧
      complex rules (place ++ "[" ++ key ++ "]") type parent child = .ok (node, stale) := by
  cases child with
  | complex info own declared =>
    rw [item] at h
    obtain ⟨choice, hchoice, h⟩ := bind_eq_ok.1 h
    obtain ⟨type, rfl⟩ := chooseItem_merge hchoice
    obtain ⟨-, -, htype⟩ := chooseItem_combine hchoice
    obtain ⟨_, hcheck, h⟩ := bind_eq_ok.1 h
    obtain ⟨⟨merged, inner⟩, hmerged, h⟩ := bind_eq_ok.1 h
    obtain ⟨rfl, rfl⟩ := pure_pair_eq_ok.1 h
    exact ⟨type, _, htype, rfl, bind_eq_ok.2 ⟨_, hcheck, bind_eq_ok.2 ⟨_, hmerged, rfl⟩⟩⟩
  | simple | list | set | map =>
    obtain ⟨hpolicy, -⟩ | ⟨hpolicy, -⟩ | ⟨-, _, _, _, _, _, _, hchild, -⟩ := item_paired h
    · cases hpolicy
    · cases hpolicy
    · cases hchild

theorem item_standsFor {above : Option Node} {child node : Node} {key : String} {stale : Totals}
    (habove : ∀ parent, above = some parent → parent.isOrdered = true)
    (hchild : child.isOrdered = true)
    (h : item rules place p policy above key child = .ok (some node, stale)) :
    StandsFor rules place p policy key above (some child) node := by
  cases above with
  | none => exact (item_added h).2
  | some parent =>
    cases policy with
    | useParent =>
      obtain ⟨-, hnode⟩ | ⟨hpolicy, -⟩ | ⟨hpolicy, -⟩ := item_paired h
      · exact Option.some.inj hnode
      · cases hpolicy
      · cases hpolicy
    | useChild =>
      obtain ⟨hpolicy, -⟩ | ⟨-, hnode⟩ | ⟨hpolicy, -⟩ := item_paired h
      · cases hpolicy
      · cases hnode
        exact backfill_completed (habove parent rfl) hchild
      · cases hpolicy
    | merge =>
      obtain ⟨type, n, htype, hnode, hmerged⟩ := item_complex h
      cases hnode
      exact ⟨type, stale, htype, hmerged⟩

theorem item_isSome {key : String} {child : Node} {kept : Option Node} {stale : Totals}
    (h : item rules place p policy (above.lookup key) key child = .ok (kept, stale)) :
    kept.isSome = staysKey p.policy (above.map Prod.fst) key := by
  cases habove : above.lookup key with
  | none =>
    have hmem : key ∉ above.map Prod.fst := by simp [← Keyed.lookup_isSome_iff, habove]
    rw [habove] at h
    rw [item_alone h, added, staysKey, decide_eq_false hmem, Bool.false_or]
    cases p.policy.entryAdded <;> rfl
  | some parent =>
    have hmem : key ∈ above.map Prod.fst := by simp [← Keyed.lookup_isSome_iff, habove]
    rw [habove] at h
    obtain ⟨node, rfl⟩ := item_kept h
    rw [staysKey, decide_eq_true hmem, Bool.true_or, Option.isSome_some]

/-! ## All entries -/

theorem kept_keys {key : String} {kept : Option Node} {keep : String → Bool}
    (h : kept.isSome = keep key) :
    (kept.map fun n => (key, n)).toList.map Prod.fst = [key].filter keep := by
  cases kept <;> simp_all

theorem items_keys {seen : List String} {merged : List Node} {stale : Totals}
    (h : items rules place p policy above seen (keyed.map Prod.fst) (keyed.map Prod.snd) =
      .ok (merged, stale)) :
    ∃ pairs, merged = pairs.map Prod.snd ∧ Pairs rules place p policy above keyed seen pairs ∧
      pairs.map Prod.fst =
        ((keyed.map Prod.fst).filter (fun key => key ∉ seen)).eraseDups.filter
          (staysKey p.policy (above.map Prod.fst)) := by
  induction keyed generalizing seen merged stale with
  | nil =>
    cases h
    exact ⟨[], rfl, ⟨.nil, by simp, by simp, by simp⟩, rfl⟩
  | cons e rest ih =>
    obtain ⟨hmet, h⟩ | ⟨hnew, kept, first, others, more, hitem, hmore, rfl, -⟩ := items_cons_ok h
    · obtain ⟨pairs, rfl, hpairs, hkeys⟩ := ih h
      have hmem : e.1 ∈ seen := List.contains_iff_mem.1 hmet
      exact ⟨pairs, rfl, hpairs.skip hmem, by simpa [hmem] using hkeys⟩
    · obtain ⟨pairs, rfl, hpairs, hkeys⟩ := ih hmore
      have hnot : e.1 ∉ seen := by simpa using hnew
      refine ⟨_, by cases kept <;> rfl, hpairs.cons hnot hitem, ?_⟩
      -- The keys that come later are those that are neither seen nor this one.
      have hlater : ((rest.map Prod.fst).filter (fun key => key ∉ seen)).filter
            (fun key => !key == e.1) =
          (rest.map Prod.fst).filter fun key => key ∉ e.1 :: seen := by
        rw [List.filter_filter]
        refine List.filter_congr fun key _ => ?_
        by_cases hkey : key = e.1 <;> simp [hkey]
      have hfirst : (((e :: rest).map Prod.fst).filter (fun key => key ∉ seen)).eraseDups =
          [e.1] ++ ((rest.map Prod.fst).filter fun key => key ∉ e.1 :: seen).eraseDups := by
        rw [List.map_cons, List.filter_cons_of_pos (by simpa using hnot), List.eraseDups_cons,
          hlater]
        rfl
      rw [List.map_append, kept_keys (item_isSome hitem), hkeys, ← List.filter_append, hfirst]

theorem entries_keys {own merged : List (String × Node)} {stale : Totals}
    (h : entries rules place p policy above own = .ok (merged, stale)) :
    merged.map Prod.fst = (own.map Prod.fst).filter (staysKey p.policy (above.map Prod.fst)) := by
  induction own generalizing merged stale with
  | nil =>
    cases h
    rfl
  | cons e rest ih =>
    obtain ⟨kept, first, others, more, hitem, hmore, rfl, -⟩ := entries_cons_ok h
    rw [List.map_append, kept_keys (item_isSome hitem), ih hmore, ← List.filter_append]
    rfl

theorem survivors_keys (keys : List String) :
    (survivors p above keys).map Prod.fst =
      if p.policy.entryRemoved = .add then
        (above.map Prod.fst).eraseDups.filter (fun key => key ∉ keys)
      else [] := by
  cases hremoved : p.policy.entryRemoved with
  | remove => simp [survivors, hremoved]
  | add =>
    rw [if_pos rfl]
    -- A survivor counts unless an earlier entry has its key, so entries are taken from the end.
    induction above using List.reverseRecOn with
    | nil => simp [survivors, hremoved]
    | append_singleton init e ih =>
      rw [survivors_snoc hremoved, lookup_survivors hremoved, List.map_append, List.map_singleton,
        Keyed.eraseDups_snoc]
      by_cases hkeys : e.1 ∈ keys
      · by_cases hmem : e.1 ∈ init.map Prod.fst
        · rw [if_pos hmem]
          simp [hkeys, ih]
        · rw [if_neg hmem]
          simp [hkeys, ih]
      · cases hinit : init.lookup e.1 with
        | none =>
          have hmem : e.1 ∉ init.map Prod.fst := by simp [← Keyed.lookup_isSome_iff, hinit]
          rw [if_neg hmem]
          simp [hkeys, ih]
        | some first =>
          have hmem : e.1 ∈ init.map Prod.fst := by simp [← Keyed.lookup_isSome_iff, hinit]
          rw [if_pos hmem]
          simp [hkeys, ih]

theorem mergedKeys_nodup (policy : Policy) (above own : List String) :
    (mergedKeys policy above own).Nodup := by
  refine List.nodup_append.2 ⟨(Keyed.nodup_eraseDups own).filter _, ?_, fun a ha b hb hab => ?_⟩
  · split
    · exact (Keyed.nodup_eraseDups above).filter _
    · exact List.nodup_nil
  · have hown : a ∈ own := List.mem_eraseDups.1 (List.mem_filter.1 ha).1
    split at hb
    · exact absurd (hab ▸ hown) (by simpa using (List.mem_filter.1 hb).2)
    · cases hb

/-! ## Collections -/

/-- What a merge of the values of two sets or maps gives: the entries of both sides merged by their
keys, under use-child whenever the parent's collection is given by defaults. Of several entries with
one key a lookup finds the first. -/
def MergedByKeys (rules : Rules) (place : String) (p : Property) (parent child node : Node) :
    Prop :=
  ∃ above own merged,
    HasEntries rules.schema p place parent above ∧ HasEntries rules.schema p place child own ∧
    merged.map Prod.fst = mergedKeys p.policy (above.map Prod.fst) (own.map Prod.fst) ∧
    (∀ e ∈ merged, StandsFor rules place p
      (if parent.definedAt.isStructural then .useChild else p.policy.item) e.1
      (above.lookup e.1) (own.lookup e.1) e.2) ∧
    IsRefilled merged child node

theorem survivor_standsFor {e : String × Node}
    (h : e ∈ survivors p above (keyed.map Prod.fst)) :
    StandsFor rules place p policy e.1 (above.lookup e.1) (keyed.lookup e.1) e.2 := by
  obtain ⟨-, hnew, hlookup⟩ := mem_survivors h
  have hnone : keyed.lookup e.1 = none := by
    rwa [← Keyed.lookup_isSome_iff, Option.not_isSome_iff_eq_none] at hnew
  rw [hlookup, hnone]
  rfl

theorem hasEntries_of_keyItems {n : Node} {own : List (String × Node)} (hkind : n.kind = .set)
    (hpresent : n.isAbsent = false) (h : keyItems rules place p (n.items?.getD []) = .ok own) :
    HasEntries rules.schema p place n own := by
  cases n with
  | set info items =>
    cases items with
    | none => cases hpresent
    | some items => exact ⟨by rw [keyItems_items h]; rfl, fun e he => (keyItems_key h e he).2⟩
  | simple | complex | list | map => cases hkind

theorem set_by_keys {parent node : Node} {info : Info} {own : List Node} {inner : Totals}
    (hkind : parent.kind = .set) (hpresent : parent.isAbsent = false)
    (hparent : parent.isOrdered = true) (hown : ∀ n ∈ own, n.isOrdered = true)
    (h : ValuesTo rules place p parent (.set info (some own)) node inner) :
    MergedByKeys rules place p parent (.set info (some own)) node := by
  obtain ⟨above, keyed, merged, habove, hkeyed, hmerged, rfl⟩ := h
  rw [← keyItems_items hkeyed] at hmerged
  obtain ⟨pairs, rfl, hpairs, hkeys⟩ := items_keys hmerged
  refine ⟨above, keyed, pairs ++ survivors p above (keyed.map Prod.fst),
    hasEntries_of_keyItems hkind hpresent habove, hasEntries_of_keyItems rfl rfl hkeyed, ?_, ?_, ?_⟩
  · rw [List.map_append, hkeys, survivors_keys, mergedKeys]
    simp
  · intro e he
    rcases List.mem_append.1 he with he | he
    · obtain ⟨child, first, hchild, hitem⟩ := hpairs.source e he
      have hordered : ∀ a, above.lookup e.1 = some a → a.isOrdered = true := fun a ha =>
        items_ordered hparent a (keyItems_key habove _ (Keyed.mem_of_lookup ha)).1
      rw [hchild]
      exact item_standsFor hordered (hown _ (keyItems_key hkeyed _ (Keyed.mem_of_lookup hchild)).1)
        hitem
    · exact survivor_standsFor he
  · rw [IsRefilled, List.map_append]

theorem map_by_keys {parent node : Node} {info : Info} {own : List (String × Node)}
    {inner : Totals} (hkind : parent.kind = .map) (hpresent : parent.isAbsent = false)
    (hparent : parent.isOrdered = true) (hchild : (Node.map info (some own)).isOrdered = true)
    (h : ValuesTo rules place p parent (.map info (some own)) node inner) :
    MergedByKeys rules place p parent (.map info (some own)) node := by
  obtain ⟨i, above, rfl⟩ : ∃ i above, parent = .map i (some above) := by
    cases parent with
    | map i above =>
      cases above with
      | none => cases hpresent
      | some above => exact ⟨i, above, rfl⟩
    | simple | complex | list | set => cases hkind
  obtain ⟨merged, -, -, hmerged, rfl⟩ := h
  obtain ⟨hsorted, hown⟩ := map_ordered_iff.1 hchild
  obtain ⟨-, habove⟩ := map_ordered_iff.1 hparent
  have hkeys := entries_keys hmerged
  have hnodup := Keyed.nodup_of_sorted hsorted
  refine ⟨above, own, merged ++ survivors p above (own.map Prod.fst), rfl, rfl, ?_, ?_, ?_⟩
  · rw [List.map_append, hkeys, survivors_keys, mergedKeys, Keyed.eraseDups_of_nodup hnodup]
    rfl
  · intro e he
    rcases List.mem_append.1 he with he | he
    · obtain ⟨child, first, hmem, hitem⟩ := mem_entries hmerged e he
      have hordered : ∀ a, above.lookup e.1 = some a → a.isOrdered = true := fun a ha =>
        habove _ (Keyed.mem_of_lookup ha)
      rw [Keyed.lookup_of_mem hsorted hmem]
      exact item_standsFor hordered (hown _ hmem) hitem
    · exact survivor_standsFor he
  · have hmergedSorted : Keyed.Sorted merged :=
      Keyed.sorted_of_sublist (by rw [hkeys]; exact List.filter_sublist) hsorted
    refine ⟨_, rfl, Keyed.sorted_fillFrom _ hmergedSorted, ?_⟩
    refine Keyed.fillFrom_perm hmergedSorted (survivors_nodup _) fun e he => ?_
    -- What the parent alone has is at none of the child's keys, and no others were merged.
    obtain ⟨-, hnew, -⟩ := mem_survivors he
    rw [← Option.not_isSome_iff_eq_none, Keyed.lookup_isSome_iff, hkeys]
    exact fun hmem => hnew (List.mem_filter.1 hmem).1

/-- Two sets or maps that are there and not stale are merged by keys. -/
theorem property_by_keys {owner : String} {parent child node : Node} {stale : Totals}
    (hkind : p.kind = .set ∨ p.kind = .map) (hparent : parent.isOrdered = true)
    (hchild : child.isOrdered = true) (hpresent : parent.isAbsent = false)
    (hpresent' : child.isAbsent = false) (hkept : (judge p.policy.stale parent child).1 = false)
    (h : property rules owner place p parent child = .ok (node, stale)) :
    MergedByKeys rules place p parent child node := by
  obtain ⟨-, ⟨hparentKind, hchildKind⟩, inner, hvalues⟩ := values_of_kept hpresent hpresent' hkept h
  cases child with
  | simple | complex | list => rcases hkind with hp | hp <;> simp [hp, Node.kind] at hchildKind
  | set info own =>
    cases own with
    | none => cases hpresent'
    | some own =>
      exact set_by_keys (hparentKind.trans hchildKind.symm) hpresent hparent
        (set_ordered_iff.1 hchild) hvalues
  | map info own =>
    cases own with
    | none => cases hpresent'
    | some own =>
      exact map_by_keys (hparentKind.trans hchildKind.symm) hpresent hparent hchild hvalues

end Merge

/-! ## A small example

A pool of servers, told apart by their hosts, in which no server gets lost.
-/

namespace Sample

open Merge Schema

def pool : Property := ((Property.set "pool" .complex "Server").itemsBy .merge).entriesBy .add .add

def poolAbove : Node :=
  servers [serverAt "a" "80", serverAt "b" "81", serverAt "a" "90", serverAt "c" "70"]

def poolBelow : Node := servers [serverAt "b" "82", serverAt "d" "83", serverAt "b" "99"]

def poolMerged : Node :=
  servers [serverAt "b" "82", serverAt "d" "83", serverAt "a" "80", serverAt "c" "70"]

/-- The second server of a host is left out on both sides. -/
theorem pool_by_keys :
    poolAbove.isOrdered = true ∧ poolBelow.isOrdered = true ∧
      (judge pool.policy.stale poolAbove poolBelow).1 = false ∧
      property clusters "Cluster" "Cluster.pool" pool poolAbove poolBelow =
        .ok (poolMerged, ⟨3, 0⟩) ∧
      MergedByKeys clusters "Cluster.pool" pool poolAbove poolBelow poolMerged := by
  have habove : poolAbove.isOrdered = true := by decide
  have hbelow : poolBelow.isOrdered = true := by decide
  have hmerged : property clusters "Cluster" "Cluster.pool" pool poolAbove poolBelow =
      .ok (poolMerged, ⟨3, 0⟩) := rfl
  exact ⟨habove, hbelow, rfl, hmerged,
    property_by_keys (.inl rfl) habove hbelow rfl rfl rfl hmerged⟩

end Sample

end ScopedConfig
