import Mathlib.Data.List.Perm.Subperm
import ScopedConfig.Keyed

/-!
# Looking up keys

What a key gives after each operation on association lists, and which lists are sorted.
-/

namespace ScopedConfig.Keyed

variable {κ α : Type}

instance [Ord κ] (l : List (κ × α)) : Decidable (Sorted l) :=
  inferInstanceAs (Decidable (l.Pairwise fun a b => compare a.1 b.1 = .lt))

/-! ## Keys in order -/

theorem sorted_iff [Ord κ] {l : List (κ × α)} :
    Sorted l ↔ (l.map Prod.fst).Pairwise fun a b => compare a b = .lt := by
  rw [List.pairwise_map]
  rfl

theorem nodup_of_sorted [Ord κ] [Std.LawfulEqOrd κ] {l : List (κ × α)} (h : Sorted l) :
    (l.map Prod.fst).Nodup := by
  refine (sorted_iff.1 h).imp ?_
  rintro a _ hlt rfl
  simp [Std.ReflCmp.compare_self] at hlt

/-! ## Filling -/

theorem fillFrom_induction [BEq κ] [Ord κ] {extra l : List (κ × α)} {motive : List (κ × α) → Prop}
    (start : motive l)
    (step : ∀ acc, ∀ e ∈ extra, l.lookup e.1 = none → motive acc → motive (insert e.1 e.2 acc)) :
    motive (fillFrom extra l) := by
  suffices ∀ acc, motive acc → motive (extra.foldl
      (fun acc p => if (l.lookup p.1).isSome then acc else insert p.1 p.2 acc) acc) from
    this l start
  induction extra with
  | nil => exact fun _ h => h
  | cons e rest ih =>
    intro acc hacc
    rw [List.foldl_cons]
    apply ih fun acc e he => step acc e (List.mem_cons_of_mem _ he)
    split
    case isTrue => exact hacc
    case isFalse hnone =>
      exact step acc e List.mem_cons_self (Option.not_isSome_iff_eq_none.1 hnone) hacc

theorem mem_fillFrom [BEq κ] [Ord κ] {extra l : List (κ × α)} {e : κ × α}
    (h : e ∈ fillFrom extra l) : e ∈ extra ∨ e ∈ l := by
  revert h
  apply fillFrom_induction (motive := fun acc => e ∈ acc → e ∈ extra ∨ e ∈ l) .inr
  intro acc first hfirst _ ih h
  rcases mem_keys_insert h with rfl | h
  · exact .inl hfirst
  · exact ih h

/-! ## Lookups -/

section
variable [BEq κ] [LawfulBEq κ]

theorem mem_of_lookup {k : κ} {a : α} {l : List (κ × α)} (h : l.lookup k = some a) :
    (k, a) ∈ l := by
  obtain ⟨l₁, l₂, rfl, -⟩ := List.lookup_eq_some_iff.1 h
  simp

theorem lookup_filter (keep : κ → Bool) (q : κ) (l : List (κ × α)) :
    (l.filter fun e => keep e.1).lookup q = if keep q then l.lookup q else none := by
  induction l with
  | nil => simp
  | cons e rest ih =>
    obtain ⟨k, a⟩ := e
    by_cases hq : q = k
    · subst hq
      cases hk : keep q <;> simp [hk, ih]
    · have hne : (q == k) = false := beq_eq_false_iff_ne.2 hq
      cases hk : keep k <;> simp [List.lookup_cons, hk, hne, ih]

theorem lookup_insert [Ord κ] [Std.LawfulEqOrd κ] (k q : κ) (a : α) (l : List (κ × α)) :
    (insert k a l).lookup q = if q == k then some a else l.lookup q := by
  induction l with
  | nil => cases hq : q == k <;> simp [insert, List.lookup_cons, hq]
  | cons e rest ih =>
    obtain ⟨k', a'⟩ := e
    cases hc : compare k k' with
    | lt => cases hq : q == k <;> simp [insert, hc, List.lookup_cons, hq]
    | eq =>
      obtain rfl : k = k' := Std.LawfulEqOrd.eq_of_compare hc
      cases hq : q == k <;> simp [insert, List.lookup_cons, hq]
    | gt =>
      have hne : k' ≠ k := by
        rintro rfl
        simp [Std.ReflCmp.compare_self] at hc
      simp only [insert, hc, List.lookup_cons, ih]
      cases hq : q == k' with
      | false => rfl
      | true =>
        have : (q == k) = false := by
          rw [eq_of_beq hq]
          exact beq_eq_false_iff_ne.2 hne
        simp [this]

theorem lookup_tail_of_sorted [Ord κ] [Std.LawfulEqOrd κ] {k : κ} {a : α} {rest : List (κ × α)}
    (h : Sorted ((k, a) :: rest)) : rest.lookup k = none := by
  rw [List.lookup_eq_none_iff]
  intro p hp
  have hlt := (List.pairwise_cons.1 h).1 p hp
  rw [bne_iff_ne]
  rintro rfl
  simp [Std.ReflCmp.compare_self] at hlt

theorem lookup_of_nodup {k : κ} {a : α} {l : List (κ × α)} (h : (l.map Prod.fst).Nodup)
    (hm : (k, a) ∈ l) : l.lookup k = some a := by
  induction l with
  | nil => simp at hm
  | cons e rest ih =>
    obtain ⟨k', a'⟩ := e
    obtain ⟨hnew, hrest⟩ := List.nodup_cons.1 h
    rcases List.mem_cons.1 hm with he | htail
    · cases he
      simp
    · have hne : k ≠ k' := by
        rintro rfl
        exact hnew (List.mem_map.2 ⟨_, htail, rfl⟩)
      rw [List.lookup_cons, beq_eq_false_iff_ne.2 hne]
      exact ih hrest htail

theorem lookup_of_mem [Ord κ] [Std.LawfulEqOrd κ] {k : κ} {a : α} {l : List (κ × α)} (h : Sorted l)
    (hm : (k, a) ∈ l) : l.lookup k = some a :=
  lookup_of_nodup (nodup_of_sorted h) hm

theorem lookup_fillFrom [Ord κ] [Std.LawfulEqOrd κ] {extra : List (κ × α)} (l : List (κ × α))
    (h : Sorted extra) (q : κ) :
    (fillFrom extra l).lookup q = (l.lookup q).or (extra.lookup q) := by
  suffices ∀ acc : List (κ × α),
      (extra.foldl
        (fun acc p => if (l.lookup p.1).isSome then acc else insert p.1 p.2 acc) acc).lookup q =
        if (l.lookup q).isSome then acc.lookup q else (extra.lookup q).or (acc.lookup q) by
    rw [fillFrom, this l]
    cases l.lookup q <;> simp
  induction extra with
  | nil => simp
  | cons e rest ih =>
    obtain ⟨k, a⟩ := e
    intro acc
    rw [List.foldl_cons, ih (List.pairwise_cons.1 h).2]
    cases hq : q == k with
    | false =>
      cases hk : (l.lookup k).isSome <;> simp [List.lookup_cons, lookup_insert, hq]
    | true =>
      obtain rfl : q = k := eq_of_beq hq
      cases hk : (l.lookup q).isSome <;> simp [lookup_insert, lookup_tail_of_sorted h]

theorem lookup_fillFrom_of_some [Ord κ] [Std.LawfulEqOrd κ] (extra : List (κ × α))
    {l : List (κ × α)} {q : κ} {a : α} (h : l.lookup q = some a) :
    (fillFrom extra l).lookup q = some a := by
  apply fillFrom_induction (motive := fun acc => acc.lookup q = some a) h
  intro acc e _ hnone hacc
  have hne : q ≠ e.1 := by
    rintro rfl
    rw [h] at hnone
    cases hnone
  rw [lookup_insert, beq_eq_false_iff_ne.2 hne]
  exact hacc

theorem lookup_isSome_iff {l : List (κ × α)} {q : κ} :
    (l.lookup q).isSome = true ↔ q ∈ l.map Prod.fst := by
  induction l with
  | nil => simp
  | cons e rest ih =>
    obtain ⟨k, a⟩ := e
    by_cases hq : q = k
    · simp [hq]
    · have hne : (q == k) = false := beq_eq_false_iff_ne.2 hq
      simp [List.lookup_cons, hne, hq, ih]

theorem keys_insert [Ord κ] [Std.LawfulEqOrd κ] {k q : κ} {a : α} {l : List (κ × α)} :
    q ∈ (insert k a l).map Prod.fst ↔ q = k ∨ q ∈ l.map Prod.fst := by
  rw [← lookup_isSome_iff, lookup_insert, ← lookup_isSome_iff]
  cases hq : q == k with
  | true => simp [eq_of_beq hq]
  | false => simp [ne_of_beq_false hq]

theorem length_insert_iff [Ord κ] [Std.TransOrd κ] [Std.LawfulEqOrd κ] {k : κ} {a : α}
    {l : List (κ × α)} (h : Sorted l) :
    l.length = (insert k a l).length ↔ k ∈ l.map Prod.fst := by
  constructor
  · intro hlength
    have hkeys : l.map Prod.fst ⊆ (insert k a l).map Prod.fst :=
      fun q hq => keys_insert.2 (.inr hq)
    have hperm := ((nodup_of_sorted h).subperm hkeys).perm_of_length_le (by simp [hlength])
    exact hperm.mem_iff.2 (keys_insert.2 (.inl rfl))
  · intro hk
    have hkeys : (l.map Prod.fst).Perm ((insert k a l).map Prod.fst) := by
      rw [List.perm_ext_iff_of_nodup (nodup_of_sorted h) (nodup_of_sorted (sorted_insert k a h))]
      intro q
      rw [keys_insert, or_iff_right_of_imp (fun hq => hq ▸ hk)]
    simpa using hkeys.length_eq

theorem length_filter_key {l : List (κ × α)} (h : (l.map Prod.fst).Nodup) (k : κ) :
    (l.filter fun e => e.1 == k).length = if k ∈ l.map Prod.fst then 1 else 0 := by
  rw [← List.Nodup.count h, List.count, List.countP_map, List.countP_eq_length_filter]
  rfl

theorem subset_fillFrom [Ord κ] [Std.LawfulEqOrd κ] (extra l : List (κ × α)) :
    extra.map Prod.fst ⊆ (fillFrom extra l).map Prod.fst := by
  -- The fold starts from `l`; the induction needs it from every list that has the keys of `l`.
  suffices ∀ acc : List (κ × α), l.map Prod.fst ⊆ acc.map Prod.fst → ∀ q,
      q ∈ acc.map Prod.fst ∨ q ∈ extra.map Prod.fst →
      q ∈ (extra.foldl (fun acc p => if (l.lookup p.1).isSome then acc else insert p.1 p.2 acc)
        acc).map Prod.fst from
    fun q hq => this l (List.Subset.refl _) q (.inr hq)
  induction extra with
  | nil => simp
  | cons e rest ih =>
    intro acc hl q hq
    have hmono : acc.map Prod.fst ⊆ (insert e.1 e.2 acc).map Prod.fst := fun k hk => by
      rw [← lookup_isSome_iff] at hk ⊢
      rw [lookup_insert]
      split <;> simp [hk]
    have hfirst : e.1 ∈ (insert e.1 e.2 acc).map Prod.fst := by
      rw [← lookup_isSome_iff, lookup_insert]
      simp
    rw [List.foldl_cons]
    rw [List.map_cons, List.mem_cons] at hq
    split
    case isTrue hsome =>
      have hhead : e.1 ∈ acc.map Prod.fst := hl (lookup_isSome_iff.1 hsome)
      refine ih acc hl q ?_
      rcases hq with hq | rfl | hq
      · exact .inl hq
      · exact .inl hhead
      · exact .inr hq
    case isFalse =>
      refine ih _ (List.Subset.trans hl hmono) q ?_
      rcases hq with hq | rfl | hq
      · exact .inl (hmono hq)
      · exact .inl hfirst
      · exact .inr hq

end

/-! ## Sorted lists -/

theorem sorted_fillFrom [BEq κ] [Ord κ] [Std.TransOrd κ] [Std.LawfulEqOrd κ] (extra : List (κ × α))
    {l : List (κ × α)} (h : Sorted l) : Sorted (fillFrom extra l) :=
  fillFrom_induction h fun _ e _ _ hacc => sorted_insert e.1 e.2 hacc

theorem sorted_congr {α β : Type} [Ord κ] {l : List (κ × α)} {l' : List (κ × β)}
    (h : l.map Prod.fst = l'.map Prod.fst) : Sorted l ↔ Sorted l' := by
  rw [sorted_iff, sorted_iff, h]

theorem sorted_of_sublist {α β : Type} [Ord κ] {l : List (κ × α)} {l' : List (κ × β)}
    (h : (l.map Prod.fst).Sublist (l'.map Prod.fst)) (hl' : Sorted l') : Sorted l :=
  sorted_iff.2 ((sorted_iff.1 hl').sublist h)

/-! ## Lists of keys -/

section
variable [Ord κ]

theorem mem_insertKey [Std.LawfulEqOrd κ] {k k' : κ} {l : List κ} :
    k' ∈ insertKey k l ↔ k' = k ∨ k' ∈ l := by
  induction l with
  | nil => simp [insertKey]
  | cons first rest ih =>
    cases hc : compare k first with
    | lt => simp [insertKey, hc]
    | eq =>
      obtain rfl := Std.LawfulEqOrd.eq_of_compare hc
      simp [insertKey]
    | gt => simp [insertKey, hc, ih, or_left_comm]

theorem mem_ofList {e : κ × α} {l : List (κ × α)} (h : e ∈ ofList l) : e ∈ l := by
  suffices ∀ acc : List (κ × α), e ∈ l.foldl (fun acc p => insert p.1 p.2 acc) acc →
      e ∈ acc ∨ e ∈ l by
    simpa using this [] h
  clear h
  induction l with
  | nil => exact fun _ h => .inl h
  | cons first rest ih =>
    intro acc h
    rcases ih _ h with h | h
    · rcases mem_keys_insert h with rfl | h
      · exact .inr List.mem_cons_self
      · exact .inl h
    · exact .inr (List.mem_cons_of_mem _ h)

variable [Std.TransOrd κ] [Std.LawfulEqOrd κ]

theorem pairwise_insertKey (k : κ) {l : List κ} (h : l.Pairwise fun a b => compare a b = .lt) :
    (insertKey k l).Pairwise fun a b => compare a b = .lt := by
  induction l with
  | nil => exact List.pairwise_singleton _ _
  | cons first rest ih =>
    obtain ⟨hfirst, hrest⟩ := List.pairwise_cons.1 h
    cases hc : compare k first <;> simp only [insertKey, hc]
    · refine List.pairwise_cons.2 ⟨fun k' hk' => ?_, h⟩
      rcases List.mem_cons.1 hk' with rfl | hk'
      · exact hc
      · exact Std.TransCmp.lt_trans hc (hfirst k' hk')
    · exact h
    · refine List.pairwise_cons.2 ⟨fun k' hk' => ?_, ih hrest⟩
      rcases mem_insertKey.1 hk' with rfl | hk'
      · exact Std.OrientedCmp.lt_of_gt hc
      · exact hfirst k' hk'

theorem pairwise_keySet (l : List κ) : (keySet l).Pairwise fun a b => compare a b = .lt := by
  suffices ∀ acc : List κ, acc.Pairwise (fun a b => compare a b = .lt) →
      (l.foldl (fun acc k => insertKey k acc) acc).Pairwise fun a b => compare a b = .lt from
    this [] List.Pairwise.nil
  induction l with
  | nil => exact fun _ h => h
  | cons k rest ih => exact fun acc h => ih _ (pairwise_insertKey k h)

end

/-! ## Lists in order already -/

theorem insert_nil [Ord κ] (k : κ) (a : α) : insert k a [] = [(k, a)] := rfl

theorem insert_before [Ord κ] {k k' : κ} {a a' : α} {rest : List (κ × α)}
    (h : compare k k' = .lt) : insert k a ((k', a') :: rest) = (k, a) :: (k', a') :: rest := by
  rw [insert, h]

theorem insert_after [Ord κ] {k k' : κ} {a a' : α} {rest : List (κ × α)}
    (h : compare k k' = .gt) : insert k a ((k', a') :: rest) = (k', a') :: insert k a rest := by
  rw [insert, h]

theorem insert_last [Ord κ] [Std.OrientedOrd κ] {k : κ} (a : α) {l : List (κ × α)}
    (h : ∀ e ∈ l, compare e.1 k = .lt) : insert k a l = l ++ [(k, a)] := by
  induction l with
  | nil => rfl
  | cons e rest ih =>
    obtain ⟨hfirst, hrest⟩ := List.forall_mem_cons.1 h
    rw [insert_after (Std.OrientedCmp.gt_of_lt hfirst), ih hrest, List.cons_append]

theorem insertKey_last [Ord κ] [Std.OrientedOrd κ] {k : κ} {l : List κ}
    (h : ∀ k' ∈ l, compare k' k = .lt) : insertKey k l = l ++ [k] := by
  induction l with
  | nil => rfl
  | cons k' rest ih =>
    obtain ⟨hfirst, hrest⟩ := List.forall_mem_cons.1 h
    have hgt : compare k k' = .gt := Std.OrientedCmp.gt_of_lt hfirst
    rw [insertKey, hgt]
    simp only [ih hrest, List.cons_append]

theorem ofList_of_sorted [Ord κ] [Std.OrientedOrd κ] {l : List (κ × α)} (h : Sorted l) :
    ofList l = l := by
  suffices ∀ acc : List (κ × α), Sorted (acc ++ l) →
      l.foldl (fun acc p => insert p.1 p.2 acc) acc = acc ++ l from this [] h
  clear h
  induction l with
  | nil => simp
  | cons e rest ih =>
    intro acc h
    have hlast : ∀ p ∈ acc, compare p.1 e.1 = .lt := fun p hp =>
      (List.pairwise_append.1 h).2.2 p hp e List.mem_cons_self
    rw [List.foldl_cons, insert_last e.2 hlast, ih _ (by simpa using h)]
    simp

theorem keySet_of_sorted [Ord κ] [Std.OrientedOrd κ] {l : List κ}
    (h : l.Pairwise fun a b => compare a b = .lt) : keySet l = l := by
  suffices ∀ acc : List κ, (acc ++ l).Pairwise (fun a b => compare a b = .lt) →
      l.foldl (fun acc k => insertKey k acc) acc = acc ++ l from this [] h
  clear h
  induction l with
  | nil => simp
  | cons k rest ih =>
    intro acc h
    have hlast : ∀ k' ∈ acc, compare k' k = .lt := fun k' hk' =>
      (List.pairwise_append.1 h).2.2 k' hk' k List.mem_cons_self
    rw [List.foldl_cons, insertKey_last hlast, ih _ (by simpa using h)]
    simp

theorem insert_perm [Ord κ] [Std.TransOrd κ] [Std.LawfulEqOrd κ] [BEq κ] [LawfulBEq κ] (k : κ)
    (a : α) {l : List (κ × α)} (h : Sorted l) : (insert k a l).Perm ((k, a) :: erase k l) := by
  induction l with
  | nil => exact List.Perm.refl _
  | cons e rest ih =>
    obtain ⟨k', a'⟩ := e
    obtain ⟨hfirst, hrest⟩ := List.pairwise_cons.1 h
    -- The keys after a greater one are greater too, so none of them is erased.
    have hkeep (hle : compare k k' = .lt ∨ k = k') : erase k rest = rest := by
      refine List.filter_eq_self.2 fun e he => ?_
      have hne : e.1 ≠ k := by
        rintro rfl
        rcases hle with hlt | rfl
        · have := Std.TransCmp.lt_trans hlt (hfirst e he)
          simp [Std.ReflCmp.compare_self] at this
        · simpa [Std.ReflCmp.compare_self] using hfirst e he
      simp [hne]
    cases hc : compare k k' with
    | lt =>
      have hne : k' ≠ k := by
        rintro rfl
        simp [Std.ReflCmp.compare_self] at hc
      simp only [insert, hc]
      rw [erase, List.filter_cons_of_pos (by simpa using hne), ← erase, hkeep (.inl hc)]
    | eq =>
      obtain rfl : k = k' := Std.LawfulEqOrd.eq_of_compare hc
      simp only [insert, hc]
      rw [erase, List.filter_cons_of_neg (by simp), ← erase, hkeep (.inr rfl)]
    | gt =>
      have hne : k' ≠ k := by
        rintro rfl
        simp [Std.ReflCmp.compare_self] at hc
      simp only [insert, hc]
      rw [erase, List.filter_cons_of_pos (by simpa using hne), ← erase]
      exact ((ih hrest).cons (k', a')).trans (List.Perm.swap _ _ _)

theorem fillFrom_perm [BEq κ] [LawfulBEq κ] [Ord κ] [Std.TransOrd κ] [Std.LawfulEqOrd κ]
    {extra l : List (κ × α)} (hl : Sorted l) (hextra : (extra.map Prod.fst).Nodup)
    (hnew : ∀ e ∈ extra, l.lookup e.1 = none) : (fillFrom extra l).Perm (l ++ extra) := by
  suffices ∀ acc : List (κ × α), Sorted acc → (∀ e ∈ extra, e.1 ∉ acc.map Prod.fst) →
      (extra.foldl (fun acc p => if (l.lookup p.1).isSome then acc else insert p.1 p.2 acc)
        acc).Perm (acc ++ extra) by
    refine this l hl fun e he hmem => ?_
    have hsome := lookup_isSome_iff.2 hmem
    rw [hnew e he] at hsome
    cases hsome
  -- The keys are looked up in the list as it was, and the entries go into the one filled so far. It
  -- has none of the keys that are still to come.
  induction extra with
  | nil => simp
  | cons e rest ih =>
    intro acc hacc hdisjoint
    obtain ⟨hfirst, hrest⟩ := List.nodup_cons.1 hextra
    rw [List.forall_mem_cons] at hnew hdisjoint
    have herase : erase e.1 acc = acc := by
      refine List.filter_eq_self.2 fun a ha => ?_
      have hne : a.1 ≠ e.1 := fun he => hdisjoint.1 (he ▸ List.mem_map_of_mem ha)
      simpa using hne
    have hinsert : (insert e.1 e.2 acc).Perm (e :: acc) := by
      have hperm := insert_perm e.1 e.2 hacc
      rwa [herase] at hperm
    have hdisjoint' : ∀ a ∈ rest, a.1 ∉ (insert e.1 e.2 acc).map Prod.fst := by
      intro a ha hmem
      rcases List.mem_cons.1 ((hinsert.map Prod.fst).mem_iff.1 hmem) with he | hmem
      · exact hfirst (he ▸ List.mem_map_of_mem ha)
      · exact hdisjoint.2 a ha hmem
    have hstep := ih hrest hnew.2 _ (sorted_insert e.1 e.2 hacc) hdisjoint'
    rw [List.foldl_cons, hnew.1]
    refine hstep.trans ?_
    exact (hinsert.append_right rest).trans List.perm_middle.symm

/-! ## Parts of a sorted list -/

section
variable {κ α : Type} [Ord κ]

theorem filter_insert_of_not [Std.LawfulEqOrd κ] {keep : κ → Bool} {k : κ} (a : α)
    (h : keep k = false) (l : List (κ × α)) :
    (insert k a l).filter (fun e => keep e.1) = l.filter fun e => keep e.1 := by
  induction l with
  | nil => simp [insert, h]
  | cons e rest ih =>
    obtain ⟨k', a'⟩ := e
    cases hc : compare k k' with
    | lt => simp [insert, hc, h]
    | eq =>
      obtain rfl : k = k' := Std.LawfulEqOrd.eq_of_compare hc
      simp [insert, h]
    | gt => simp [insert, hc, List.filter_cons, ih]

theorem insert_first {k : κ} (a : α) {l : List (κ × α)} (h : ∀ e ∈ l, compare k e.1 = .lt) :
    insert k a l = (k, a) :: l := by
  cases l with
  | nil => rfl
  | cons e rest => exact insert_before (h e List.mem_cons_self)

theorem filter_insert [Std.TransOrd κ] [Std.LawfulEqOrd κ] {keep : κ → Bool} {k : κ} (a : α)
    (h : keep k = true) {l : List (κ × α)}
    (hl : Sorted l) :
    (insert k a l).filter (fun e => keep e.1) = insert k a (l.filter fun e => keep e.1) := by
  induction l with
  | nil => simp [insert, h]
  | cons e rest ih =>
    obtain ⟨k', a'⟩ := e
    obtain ⟨hfirst, hrest⟩ := List.pairwise_cons.1 hl
    cases hc : compare k k' with
    | lt =>
      -- What is kept of the rest comes after the key, too.
      have hafter : ∀ e ∈ ((k', a') :: rest).filter fun e => keep e.1, compare k e.1 = .lt := by
        intro e he
        rcases List.mem_cons.1 (List.mem_filter.1 he).1 with rfl | hmem
        · exact hc
        · exact Std.TransCmp.lt_trans hc (hfirst e hmem)
      rw [insert_before hc, insert_first a hafter, List.filter_cons]
      simp only [h, if_true]
    | eq =>
      obtain rfl : k = k' := Std.LawfulEqOrd.eq_of_compare hc
      simp [insert, h]
    | gt => cases hk : keep k' <;> simp [insert_after hc, hk, ih hrest]

end

end ScopedConfig.Keyed
