import Mathlib.Data.List.Perm.Subperm
import ScopedConfig.Proofs.Stamp

/-!
# Equal content

Equal content is reflexive and symmetric on ordered nodes and transitive on all nodes, and metadata
other than type names has no part in it.
-/

namespace ScopedConfig

namespace Node

/-! ## Parts -/

theorem sameFields_iff {own others : List (String × Node)} :
    sameFields own others = true ↔
      ∀ e ∈ own, ∃ m, others.lookup e.1 = some m ∧ e.2.sameContent m = true := by
  induction own with
  | nil => simp [sameFields]
  | cons e rest ih =>
    obtain ⟨k, n⟩ := e
    rw [sameFields, Bool.and_eq_true, ih]
    cases h : others.lookup k <;> simp [h]

theorem sameFields_lookup {own others : List (String × Node)} {name : String} {child : Node}
    (h : sameFields own others = true) (hchild : own.lookup name = some child) :
    ∃ m, others.lookup name = some m ∧ child.sameContent m = true :=
  sameFields_iff.1 h (name, child) (Keyed.mem_of_lookup hchild)

theorem sameItems_getElem? {own others : List Node} {i : Nat} {n : Node}
    (h : sameItems own others = true) (hn : own[i]? = some n) :
    ∃ m, others[i]? = some m ∧ n.sameContent m = true := by
  induction own generalizing others i with
  | nil => cases hn
  | cons a as ih =>
    cases others with
    | nil => simp [sameItems] at h
    | cons b bs =>
      rw [sameItems, Bool.and_eq_true] at h
      cases i with
      | zero =>
        cases hn
        exact ⟨b, rfl, h.1⟩
      | succ i =>
        rw [List.getElem?_cons_succ] at hn ⊢
        exact ih h.2 hn

/-! ## The other side

What a node looks like that has the same content as a given one.
-/

section
variable {b : Node} {info : Info}

theorem eq_of_sameContent_simple {text : Option String}
    (h : (simple info text).sameContent b = true) : ∃ j, b = simple j text := by
  rw [sameContent.eq_def] at h
  split at h
  case h_1 heq => cases heq; exact ⟨_, by rw [eq_of_beq h]⟩
  all_goals simp_all

theorem eq_of_sameContent_complex {own : List (String × Node)} {declared : List String}
    (h : (complex info own declared).sameContent b = true) :
    ∃ j others ds, b = complex j others ds ∧ own.length = others.length ∧
      sameFields own others = true := by
  rw [sameContent.eq_def] at h
  split at h
  case h_2 heq =>
    cases heq
    rw [Bool.and_eq_true, beq_iff_eq] at h
    exact ⟨_, _, _, rfl, h⟩
  all_goals simp_all

theorem eq_of_sameContent_absentList (h : (list info none).sameContent b = true) :
    ∃ j, b = list j none := by
  rw [sameContent.eq_def] at h
  split at h
  case h_3 heq => exact ⟨_, rfl⟩
  all_goals simp_all

theorem eq_of_sameContent_list {own : List Node} (h : (list info (some own)).sameContent b = true) :
    ∃ j others, b = list j (some others) ∧ sameItems own others = true := by
  rw [sameContent.eq_def] at h
  split at h
  case h_4 heq => cases heq; exact ⟨_, _, rfl, h⟩
  all_goals simp_all

theorem eq_of_sameContent_absentSet (h : (set info none).sameContent b = true) :
    ∃ j, b = set j none := by
  rw [sameContent.eq_def] at h
  split at h
  case h_5 heq => exact ⟨_, rfl⟩
  all_goals simp_all

theorem eq_of_sameContent_set {own : List Node} (h : (set info (some own)).sameContent b = true) :
    ∃ j others, b = set j (some others) ∧
      Fingerprint.sortParts (itemParts own) = Fingerprint.sortParts (itemParts others) := by
  rw [sameContent.eq_def] at h
  split at h
  case h_6 heq => cases heq; exact ⟨_, _, rfl, eq_of_beq h⟩
  all_goals simp_all

theorem eq_of_sameContent_absentMap (h : (map info none).sameContent b = true) :
    ∃ j, b = map j none := by
  rw [sameContent.eq_def] at h
  split at h
  case h_7 heq => exact ⟨_, rfl⟩
  all_goals simp_all

theorem eq_of_sameContent_map {own : List (String × Node)}
    (h : (map info (some own)).sameContent b = true) :
    ∃ j others, b = map j (some others) ∧ own.length = others.length ∧
      sameFields own others = true := by
  rw [sameContent.eq_def] at h
  split at h
  case h_8 heq =>
    cases heq
    rw [Bool.and_eq_true, beq_iff_eq] at h
    exact ⟨_, _, rfl, h⟩
  all_goals simp_all

end

/-! ## Metadata -/

section
variable {f : Info → Info}

theorem sameFields_mapInfo {own : List (String × Node)} (others : List (String × Node))
    (h : ∀ e ∈ own, ∀ m, e.2.sameContent (m.mapInfo f) = e.2.sameContent m) :
    sameFields own (mapInfoFields f others) = sameFields own others := by
  induction own with
  | nil => rfl
  | cons e rest ih =>
    have hrest := ih fun e he => h e (List.mem_cons_of_mem _ he)
    obtain ⟨k, n⟩ := e
    rw [sameFields, sameFields, lookup_mapInfoFields, hrest]
    cases others.lookup k with
    | none => rfl
    | some m => simp [h (k, n) List.mem_cons_self m]

theorem sameItems_mapInfo {own : List Node} (others : List Node)
    (h : ∀ n ∈ own, ∀ m, n.sameContent (m.mapInfo f) = n.sameContent m) :
    sameItems own (mapInfoItems f others) = sameItems own others := by
  induction own generalizing others with
  | nil => cases others <;> simp [mapInfoItems, sameItems]
  | cons n rest ih =>
    have hrest := fun others => ih others fun n hn => h n (List.mem_cons_of_mem _ hn)
    cases others with
    | nil => rfl
    | cons m others => simp [mapInfoItems, sameItems, h n List.mem_cons_self m, hrest others]

theorem sameContent_mapInfo (hf : ∀ i, (f i).typeName = i.typeName) (a b : Node) :
    a.sameContent (b.mapInfo f) = a.sameContent b := by
  have parts (own : List Node) : itemParts (mapInfoItems f own) = itemParts own :=
    itemParts_mapInfo fun n _ => fingerprintChars_mapInfo hf n
  induction a using tree_induction generalizing b with
  | simple | absentList | absentSet | absentMap =>
    cases b with
    | simple | complex => simp [mapInfo, sameContent]
    | list _ own | set _ own | map _ own => cases own <;> simp [mapInfo, sameContent]
  | complex i own declared ih =>
    cases b with
    | simple => simp [mapInfo, sameContent]
    | complex j others => simp [mapInfo, sameContent, sameFields_mapInfo others ih]
    | list _ own | set _ own | map _ own => cases own <;> simp [mapInfo, sameContent]
  | list i own ih =>
    cases b with
    | simple | complex => simp [mapInfo, sameContent]
    | list j others => cases others <;> simp [mapInfo, sameContent, sameItems_mapInfo _ ih]
    | set _ others | map _ others => cases others <;> simp [mapInfo, sameContent]
  | set i own ih =>
    cases b with
    | simple | complex => simp [mapInfo, sameContent]
    | set j others => cases others <;> simp [mapInfo, sameContent, parts]
    | list _ others | map _ others => cases others <;> simp [mapInfo, sameContent]
  | map i own ih =>
    cases b with
    | simple | complex => simp [mapInfo, sameContent]
    | map j others => cases others <;> simp [mapInfo, sameContent, sameFields_mapInfo _ ih]
    | list _ others | set _ others => cases others <;> simp [mapInfo, sameContent]

end

/-! ## Order -/

theorem sameItems_refl {own : List Node} (h : ∀ n ∈ own, n.sameContent n = true) :
    sameItems own own = true := by
  induction own with
  | nil => rfl
  | cons n rest ih =>
    simp [sameItems, h n List.mem_cons_self, ih fun m hm => h m (List.mem_cons_of_mem _ hm)]

theorem sameFields_refl {own : List (String × Node)} (hsorted : Keyed.Sorted own)
    (h : ∀ e ∈ own, e.2.sameContent e.2 = true) : sameFields own own = true :=
  sameFields_iff.2 fun e he => ⟨e.2, Keyed.lookup_of_mem hsorted he, h e he⟩

theorem sameContent_refl {n : Node} (h : n.isOrdered = true) : n.sameContent n = true := by
  -- The keys have to be in order, because a repeated key would hide a field.
  induction n using tree_induction with
  | simple | absentList | absentSet | absentMap => simp [sameContent]
  | complex i own declared ih =>
    obtain ⟨hsorted, hown⟩ := complex_ordered_iff.1 h
    simp [sameContent, sameFields_refl hsorted fun e he => ih e he (hown e he)]
  | list i own ih =>
    have hown := itemsOrdered_iff.1 h
    simp [sameContent, sameItems_refl fun n hn => ih n hn (hown n hn)]
  | set i own ih => simp [sameContent]
  | map i own ih =>
    obtain ⟨hsorted, hown⟩ := map_ordered_iff.1 h
    simp [sameContent, sameFields_refl hsorted fun e he => ih e he (hown e he)]

theorem sameItems_symm {as bs : List Node}
    (h : ∀ n ∈ as, ∀ m ∈ bs, n.sameContent m = true → m.sameContent n = true)
    (hab : sameItems as bs = true) : sameItems bs as = true := by
  induction as generalizing bs with
  | nil => cases bs <;> simp_all [sameItems]
  | cons a as ih =>
    cases bs with
    | nil => simp [sameItems] at hab
    | cons b bs =>
      simp only [sameItems, Bool.and_eq_true] at hab ⊢
      refine ⟨h a List.mem_cons_self b List.mem_cons_self hab.1, ih (fun n hn m hm => ?_) hab.2⟩
      exact h n (List.mem_cons_of_mem _ hn) m (List.mem_cons_of_mem _ hm)

theorem sameFields_symm {as bs : List (String × Node)} (has : Keyed.Sorted as)
    (hbs : Keyed.Sorted bs) (hlength : as.length = bs.length)
    (h : ∀ e ∈ as, ∀ f ∈ bs, e.2.sameContent f.2 = true → f.2.sameContent e.2 = true)
    (hab : sameFields as bs = true) : sameFields bs as = true := by
  rw [sameFields_iff] at *
  -- Fields that all have a counterpart are all there are, because there are as many on both sides.
  have hsubset : as.map Prod.fst ⊆ bs.map Prod.fst := by
    intro k hk
    obtain ⟨e, he, rfl⟩ := List.mem_map.1 hk
    obtain ⟨m, hm, -⟩ := hab e he
    exact Keyed.lookup_isSome_iff.1 (by rw [hm]; rfl)
  have hkeys : (as.map Prod.fst).Perm (bs.map Prod.fst) :=
    ((Keyed.nodup_of_sorted has).subperm hsubset).perm_of_length_le (by simp [hlength])
  intro f hf
  have hkey : f.1 ∈ as.map Prod.fst := hkeys.mem_iff.2 (List.mem_map_of_mem hf)
  obtain ⟨n, hn⟩ := Option.isSome_iff_exists.1 (Keyed.lookup_isSome_iff.2 hkey)
  have hmem := Keyed.mem_of_lookup hn
  obtain ⟨m, hm, hnm⟩ := hab _ hmem
  have hfm : bs.lookup f.1 = some f.2 := Keyed.lookup_of_mem hbs hf
  obtain rfl : f.2 = m := Option.some.inj (hfm.symm.trans hm)
  exact ⟨n, hn, h _ hmem f hf hnm⟩

theorem sameContent_symm {a b : Node} (ha : a.isOrdered = true) (hb : b.isOrdered = true)
    (h : a.sameContent b = true) : b.sameContent a = true := by
  induction a using tree_induction generalizing b with
  | simple i t =>
    obtain ⟨j, rfl⟩ := eq_of_sameContent_simple h
    simp [sameContent]
  | complex i own declared ih =>
    obtain ⟨j, others, ds, rfl, hlength, hfields⟩ := eq_of_sameContent_complex h
    obtain ⟨hsorted, hown⟩ := complex_ordered_iff.1 ha
    obtain ⟨hsorted', hothers⟩ := complex_ordered_iff.1 hb
    have hback := sameFields_symm hsorted hsorted' hlength
      (fun e he f hf => ih e he (hown e he) (hothers f hf)) hfields
    simp [sameContent, hlength, hback]
  | absentList i =>
    obtain ⟨j, rfl⟩ := eq_of_sameContent_absentList h
    simp [sameContent]
  | list i own ih =>
    obtain ⟨j, others, rfl, hitems⟩ := eq_of_sameContent_list h
    have hown := items_ordered ha
    have hothers := items_ordered hb
    rw [sameContent]
    exact sameItems_symm (fun n hn m hm => ih n hn (hown n hn) (hothers m hm)) hitems
  | absentSet i =>
    obtain ⟨j, rfl⟩ := eq_of_sameContent_absentSet h
    simp [sameContent]
  | set i own ih =>
    obtain ⟨j, others, rfl, hparts⟩ := eq_of_sameContent_set h
    simp [sameContent, hparts]
  | absentMap i =>
    obtain ⟨j, rfl⟩ := eq_of_sameContent_absentMap h
    simp [sameContent]
  | map i own ih =>
    obtain ⟨j, others, rfl, hlength, hfields⟩ := eq_of_sameContent_map h
    obtain ⟨hsorted, hown⟩ := map_ordered_iff.1 ha
    obtain ⟨hsorted', hothers⟩ := map_ordered_iff.1 hb
    have hback := sameFields_symm hsorted hsorted' hlength
      (fun e he f hf => ih e he (hown e he) (hothers f hf)) hfields
    simp [sameContent, hlength, hback]

theorem sameFields_trans {as bs cs : List (String × Node)}
    (h : ∀ e ∈ as, ∀ m k, e.2.sameContent m = true → m.sameContent k = true →
      e.2.sameContent k = true)
    (hab : sameFields as bs = true) (hbc : sameFields bs cs = true) : sameFields as cs = true := by
  rw [sameFields_iff] at *
  intro e he
  obtain ⟨m, hm, hem⟩ := hab e he
  obtain ⟨k, hk, hmk⟩ := hbc (e.1, m) (Keyed.mem_of_lookup hm)
  exact ⟨k, hk, h e he m k hem hmk⟩

theorem sameItems_trans {as bs cs : List Node}
    (h : ∀ n ∈ as, ∀ m k, n.sameContent m = true → m.sameContent k = true → n.sameContent k = true)
    (hab : sameItems as bs = true) (hbc : sameItems bs cs = true) : sameItems as cs = true := by
  induction as generalizing bs cs with
  | nil => cases bs <;> cases cs <;> simp_all [sameItems]
  | cons a as ih =>
    match bs, cs with
    | [], _ => simp [sameItems] at hab
    | _ :: _, [] => simp [sameItems] at hbc
    | b :: bs, c :: cs =>
      simp only [sameItems, Bool.and_eq_true] at hab hbc ⊢
      refine ⟨h a List.mem_cons_self b c hab.1 hbc.1, ?_⟩
      exact ih (fun n hn => h n (List.mem_cons_of_mem _ hn)) hab.2 hbc.2

theorem sameContent_trans {a b c : Node} (hab : a.sameContent b = true)
    (hbc : b.sameContent c = true) : a.sameContent c = true := by
  induction a using tree_induction generalizing b c with
  | simple i t =>
    obtain ⟨j, rfl⟩ := eq_of_sameContent_simple hab
    obtain ⟨k, rfl⟩ := eq_of_sameContent_simple hbc
    simp [sameContent]
  | complex i own declared ih =>
    obtain ⟨j, bs, ds, rfl, hlb, hfb⟩ := eq_of_sameContent_complex hab
    obtain ⟨k, cs, es, rfl, hlc, hfc⟩ := eq_of_sameContent_complex hbc
    simp [sameContent, hlb.trans hlc, sameFields_trans (fun e he m k => ih e he) hfb hfc]
  | absentList i =>
    obtain ⟨j, rfl⟩ := eq_of_sameContent_absentList hab
    obtain ⟨k, rfl⟩ := eq_of_sameContent_absentList hbc
    simp [sameContent]
  | list i own ih =>
    obtain ⟨j, bs, rfl, hb⟩ := eq_of_sameContent_list hab
    obtain ⟨k, cs, rfl, hc⟩ := eq_of_sameContent_list hbc
    simp [sameContent, sameItems_trans (fun n hn m k => ih n hn) hb hc]
  | absentSet i =>
    obtain ⟨j, rfl⟩ := eq_of_sameContent_absentSet hab
    obtain ⟨k, rfl⟩ := eq_of_sameContent_absentSet hbc
    simp [sameContent]
  | set i own ih =>
    obtain ⟨j, bs, rfl, hb⟩ := eq_of_sameContent_set hab
    obtain ⟨k, cs, rfl, hc⟩ := eq_of_sameContent_set hbc
    simp [sameContent, hb.trans hc]
  | absentMap i =>
    obtain ⟨j, rfl⟩ := eq_of_sameContent_absentMap hab
    obtain ⟨k, rfl⟩ := eq_of_sameContent_absentMap hbc
    simp [sameContent]
  | map i own ih =>
    obtain ⟨j, bs, rfl, hlb, hfb⟩ := eq_of_sameContent_map hab
    obtain ⟨k, cs, rfl, hlc, hfc⟩ := eq_of_sameContent_map hbc
    simp [sameContent, hlb.trans hlc, sameFields_trans (fun e he m k => ih e he) hfb hfc]

end Node

/-! ## Stamped nodes -/

/-- The metadata without the bookkeeping of saves. -/
def Info.unstamped (place : Scope.Path) (i : Info) : Info :=
  { i with definedAt := place, version := 0, parentScope := none, parentVersion := 0 }

namespace Stamp

variable (s : Schema) (target : Scope.Path) (role : Role) (previous ancestor : Option Node)

theorem unstamped_stamp (n : Node) :
    (stamp s target role previous ancestor n).mapInfo (.unstamped target) =
      n.mapInfo (.unstamped target) :=
  mapInfo_stamp s target (fun _ _ _ => rfl) role previous ancestor n

theorem fingerprint_stamp (n : Node) :
    (stamp s target role previous ancestor n).fingerprint = n.fingerprint := by
  have hread := Node.fingerprintChars_mapInfo (f := Info.unstamped target) fun _ => rfl
  rw [Node.fingerprint, ← hread, unstamped_stamp, hread, Node.fingerprint]

theorem isOrdered_stamp (n : Node) :
    (stamp s target role previous ancestor n).isOrdered = n.isOrdered := by
  have hkeys := Node.isOrdered_mapInfo (f := Info.unstamped target)
  rw [← hkeys, unstamped_stamp, hkeys]

theorem sameContent_stamp (a n : Node) :
    a.sameContent (stamp s target role previous ancestor n) = a.sameContent n := by
  have hread := Node.sameContent_mapInfo (f := Info.unstamped target) (fun _ => rfl) a
  rw [← hread, unstamped_stamp, hread]

end Stamp

end ScopedConfig
