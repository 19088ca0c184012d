import ScopedConfig.Proofs.Cache
import ScopedConfig.Proofs.Run

/-!
# The least recently used path

What a cache holds follows from the history of its uses. A snapshot stays where it was put until its
path is removed or the cache is cleared, unless a new path is put into a full cache. Then the path
goes that was put or found the longest time ago, and no other. The counters say how often that
happened, and how many lookups went well or not.
-/

namespace ScopedConfig

namespace Cache

open Scope (Path)

/-! ## Histories -/

inductive Use where
  | put (path : Path) (node : Node)
  | get (path : Path)
  | remove (path : Path)
  | removeBelow (path : Path)
  | clear
  | setEnabled (enabled : Bool)
deriving DecidableEq

def use (c : Cache) : Use → Cache
  | .put path node => c.put path node
  | .get path => (c.get path).2
  | .remove path => (c.remove path).2
  | .removeBelow path => (c.removeBelow path).2
  | .clear => c.clear
  | .setEnabled enabled => c.setEnabled enabled

/-- The cache after a history of uses, of which the latest comes first. -/
def after (capacity : Nat) : List Use → Cache
  | [] => empty capacity
  | u :: past => (after capacity past).use u

def holds (c : Cache) (path : Path) : Bool := (c.entries.lookup path).isSome

/-! ## What a use does -/

/-- The path is taken out, whatever the cache holds. -/
def Use.ends (path : Path) : Use → Bool
  | .remove p => path == p
  | .removeBelow p => path.extends? p
  | .clear => true
  | .setEnabled enabled => !enabled
  | .put .. | .get _ => false

/-- The path is put or found. -/
def touches (c : Cache) (path : Path) : Use → Bool
  | .put p _ => path == p
  | .get p => path == p && (c.get p).1.isSome
  | .remove _ | .removeBelow _ | .clear | .setEnabled _ => false

/-- A path that is not held is put into a full cache. -/
def overflows (c : Cache) : Use → Bool
  | .put path _ => c.enabled && !c.holds path && c.size == c.capacity
  | .get _ | .remove _ | .removeBelow _ | .clear | .setEnabled _ => false

def hits? (c : Cache) : Use → Bool
  | .get path => c.enabled && (c.get path).1.isSome
  | .put .. | .remove _ | .removeBelow _ | .clear | .setEnabled _ => false

def misses? (c : Cache) : Use → Bool
  | .get path => c.enabled && (c.get path).1.isNone
  | .put .. | .remove _ | .removeBelow _ | .clear | .setEnabled _ => false

/-! ## What a history tells -/

section
variable (capacity : Nat)

/-- How many of the uses were such. -/
def times (happens : Cache → Use → Bool) : List Use → Nat
  | [] => 0
  | u :: past => times happens past + (happens (after capacity past) u).toNat

/-- How many uses ago the path was last put or found. -/
def idle? (path : Path) : List Use → Option Nat
  | [] => none
  | u :: past =>
    if (after capacity past).touches path u then some 0 else (idle? path past).map (· + 1)

/-- The first path was put or found before the second one, for the last time. -/
def Older (past : List Use) (p q : Path) : Prop :=
  ∃ i j, idle? capacity p past = some i ∧ idle? capacity q past = some j ∧ j < i

/-- Of all paths that are held, this one was put or found the longest time ago. -/
def IsOldest (past : List Use) (path : Path) : Prop :=
  (after capacity past).holds path = true ∧
    ∀ q, (after capacity past).holds q = true → q ≠ path → Older capacity past path q

/-- The use takes the path out of a cache with this history. -/
def Drops (past : List Use) (u : Use) (path : Path) : Prop :=
  u.ends path = true ∨ (after capacity past).overflows u = true ∧ IsOldest capacity past path

/-- The path was put with this node, and since then it was neither put again nor taken out. -/
inductive Remembers (path : Path) (node : Node) : List Use → Prop where
  | put {past : List Use} (h : (after capacity past).enabled = true) :
    Remembers path node (.put path node :: past)
  | later {u : Use} {past : List Use} (h : Remembers path node past)
    (hput : ∀ n, u ≠ .put path n) (hkept : ¬ Drops capacity past u path) :
    Remembers path node (u :: past)

/-- A cache with this history holds what was used last, as much as fits in, and counts right. -/
structure IsExact (past : List Use) : Prop where
  room : (after capacity past).capacity = max capacity 1
  bounded : (after capacity past).size ≤ max capacity 1
  distinct : ((after capacity past).entries.map Prod.fst).Nodup
  disabled : (after capacity past).enabled = false → (after capacity past).entries = []
  found : ∀ path node, ((after capacity past).get path).1 = some node ↔
    Remembers capacity path node past
  dropped : ∀ u path, (after capacity past).holds path = true →
    ((after capacity (u :: past)).holds path = false ↔ Drops capacity past u path)
  overflowed : ∀ u, (after capacity past).overflows u = true → ∃! path, IsOldest capacity past path
  evictions : (after capacity past).evictions = times capacity overflows past
  hits : (after capacity past).hits = times capacity hits? past
  misses : (after capacity past).misses = times capacity misses? past

end

/-! ## Single uses -/

variable {c : Cache} {u : Use} {path : Path} {node : Node}

theorem holds_iff : c.holds path = true ↔ path ∈ c.entries.map Prod.fst :=
  Keyed.lookup_isSome_iff

theorem without_of_not_holds (h : c.holds path = false) : without path c.entries = c.entries := by
  refine List.filter_eq_self.2 fun e he => ?_
  have hne : e.1 ≠ path := by
    rintro rfl
    rw [holds_iff.2 (List.mem_map_of_mem he)] at h
    cases h
  simpa using hne

theorem length_without (hdistinct : (c.entries.map Prod.fst).Nodup) (path : Path) :
    (without path c.entries).length + (c.holds path).toNat = c.size := by
  have hkey := Keyed.length_filter_key hdistinct path
  have hsplit := List.length_eq_length_filter_add (l := c.entries) fun e => e.1 == path
  rw [hkey, Nat.add_comm] at hsplit
  rw [size, hsplit, without]
  cases hheld : c.holds path with
  | true => rw [if_pos (holds_iff.1 hheld)]; rfl
  | false =>
    rw [if_neg fun hmem => by rw [holds_iff.2 hmem] at hheld; cases hheld]
    rfl

/-- At most one path is dropped by a put, and only if a new path comes to a full cache. -/
theorem entries_put (henabled : c.enabled = true) (hcapacity : c.capacity ≠ 0)
    (hbounded : c.size ≤ c.capacity) (hdistinct : (c.entries.map Prod.fst).Nodup) :
    (c.put path node).entries =
        (without path c.entries).drop (c.overflows (.put path node)).toNat ++ [(path, node)] ∧
      (c.put path node).evictions = c.evictions + (c.overflows (.put path node)).toNat := by
  have hlength := length_without hdistinct path
  have hsurplus : (without path c.entries ++ [(path, node)]).length - c.capacity =
      (c.overflows (.put path node)).toNat := by
    rw [List.length_append, List.length_singleton, overflows, henabled]
    cases hheld : c.holds path with
    | true =>
      rw [hheld, Bool.toNat_true] at hlength
      simp only [Bool.not_true, Bool.and_false, Bool.false_and, Bool.toNat_false]
      omega
    | false =>
      rw [hheld, Bool.toNat_false] at hlength
      by_cases hfull : c.size = c.capacity
      · simp only [Bool.not_false, Bool.and_self, hfull, beq_self_eq_true, Bool.toNat_true]
        omega
      · simp only [Bool.not_false, Bool.and_self, beq_eq_false_iff_ne.2 hfull, Bool.and_false,
          Bool.toNat_false]
        omega
  have hle : (c.overflows (.put path node)).toNat ≤ (without path c.entries).length := by
    rw [← hsurplus, List.length_append, List.length_singleton]
    omega
  simp only [put, henabled, if_true, hsurplus, and_true]
  exact List.drop_append_of_le_length hle

theorem get_eq_lookup (hdisabled : c.enabled = false → c.entries = []) (path : Path) :
    (c.get path).1 = c.entries.lookup path := by
  unfold get
  cases henabled : c.enabled with
  | false => simp [hdisabled henabled]
  | true => cases hlookup : c.entries.lookup path <;> rfl

theorem get_none (h : c.entries.lookup path = none) : (c.get path).2.entries = c.entries := by
  unfold get
  cases c.enabled <;> simp [h]

theorem get_some (henabled : c.enabled = true) (h : c.entries.lookup path = some node) :
    (c.get path).2.entries = without path c.entries ++ [(path, node)] := by
  simp [get, henabled, h]

theorem capacity_use (c : Cache) (u : Use) : (c.use u).capacity = c.capacity := by
  cases u with
  | put path node =>
    rw [use, put]
    split <;> rfl
  | get path =>
    rw [use, get]
    split
    · split <;> rfl
    · rfl
  | remove | removeBelow | clear | setEnabled => rfl

theorem mem_use {e : Path × Node} (h : e ∈ (c.use u).entries) :
    e ∈ c.entries ∨ u = .put e.1 e.2 := by
  cases u with
  | put path node =>
    rw [use, put] at h
    split at h
    · rcases List.mem_append.1 (List.mem_of_mem_drop h) with h | h
      · exact .inl (mem_without.1 h).1
      · obtain rfl := List.mem_singleton.1 h
        exact .inr rfl
    · exact .inl h
  | get path =>
    rw [use, get] at h
    split at h
    · split at h
      case h_1 found hfound =>
        rcases List.mem_append.1 h with h | h
        · exact .inl (mem_without.1 h).1
        · obtain rfl := List.mem_singleton.1 h
          exact .inl (Keyed.mem_of_lookup hfound)
      case h_2 => exact .inl h
    · exact .inl h
  | remove path => exact .inl (mem_without.1 h).1
  | removeBelow path => exact .inl (List.mem_filter.1 h).1
  | clear => cases h
  | setEnabled enabled =>
    cases enabled with
    | false => cases h
    | true => exact .inl h

/-! ## Order -/

section
variable {capacity : Nat} {past : List Use} {p q : Path}

theorem after_capacity (past : List Use) : (after capacity past).capacity = max capacity 1 := by
  induction past with
  | nil => rfl
  | cons u past ih => rw [after, capacity_use, ih]

theorem Older.trans {r : Path} (hpq : Older capacity past p q) (hqr : Older capacity past q r) :
    Older capacity past p r := by
  obtain ⟨i, j, hi, hj, hji⟩ := hpq
  obtain ⟨j', k, hj', hk, hkj⟩ := hqr
  obtain rfl : j = j' := Option.some.inj (hj.symm.trans hj')
  exact ⟨i, k, hi, hk, by omega⟩

theorem Older.irrefl : ¬ Older capacity past p p := by
  rintro ⟨i, j, hi, hj, hji⟩
  obtain rfl : i = j := Option.some.inj (hi.symm.trans hj)
  omega

theorem idle?_untouched (h : (after capacity past).touches p u = false) :
    idle? capacity p (u :: past) = (idle? capacity p past).map (· + 1) := by
  rw [idle?, h]
  rfl

theorem Older.untouched (h : Older capacity past p q)
    (hp : (after capacity past).touches p u = false)
    (hq : (after capacity past).touches q u = false) : Older capacity (u :: past) p q := by
  obtain ⟨i, j, hi, hj, hji⟩ := h
  exact ⟨i + 1, j + 1, by rw [idle?_untouched hp, hi]; rfl, by rw [idle?_untouched hq, hj]; rfl,
    by omega⟩

/-- The entries are in the order in which they were last put or found. -/
structure InOrder (capacity : Nat) (past : List Use) : Prop where
  bounded : (after capacity past).size ≤ (after capacity past).capacity
  disabled : (after capacity past).enabled = false → (after capacity past).entries = []
  touched : ∀ e ∈ (after capacity past).entries, (idle? capacity e.1 past).isSome = true
  ordered : (after capacity past).entries.Pairwise fun e f => Older capacity past e.1 f.1

theorem InOrder.distinct (h : InOrder capacity past) :
    ((after capacity past).entries.map Prod.fst).Nodup := by
  rw [List.Nodup, List.pairwise_map]
  refine h.ordered.imp fun {e f} holder hsame => ?_
  rw [hsame] at holder
  exact holder.irrefl

theorem InOrder.enabled_of_holds (h : InOrder capacity past)
    (hheld : (after capacity past).holds p = true) : (after capacity past).enabled = true := by
  by_contra hdisabled
  rw [holds, h.disabled (by simpa using hdisabled)] at hheld
  cases hheld

theorem InOrder.entries_put (h : InOrder capacity past) (path : Path) (node : Node)
    (henabled : (after capacity past).enabled = true) :
    (after capacity (.put path node :: past)).entries =
        (without path (after capacity past).entries).drop
          ((after capacity past).overflows (.put path node)).toNat ++ [(path, node)] ∧
      (after capacity (.put path node :: past)).evictions =
        (after capacity past).evictions +
          ((after capacity past).overflows (.put path node)).toNat := by
  have hcapacity : (after capacity past).capacity ≠ 0 := by
    rw [after_capacity]
    omega
  exact Cache.entries_put henabled hcapacity h.bounded h.distinct

theorem InOrder.sublist (h : InOrder capacity past)
    (hsublist : (after capacity (u :: past)).entries.Sublist (after capacity past).entries)
    (huntouched : ∀ e ∈ (after capacity (u :: past)).entries,
      (after capacity past).touches e.1 u = false)
    (hdisabled : (after capacity (u :: past)).enabled = false →
      (after capacity (u :: past)).entries = []) : InOrder capacity (u :: past) where
  bounded := by
    rw [after_capacity, ← after_capacity past]
    exact Nat.le_trans hsublist.length_le h.bounded
  disabled := hdisabled
  touched e he := by
    rw [idle?_untouched (huntouched e he), Option.isSome_map]
    exact h.touched e (hsublist.mem he)
  ordered := (h.ordered.sublist hsublist).imp_of_mem fun he hf holder =>
    holder.untouched (huntouched _ he) (huntouched _ hf)

theorem InOrder.snoc (h : InOrder capacity past) {kept : List (Path × Node)}
    (hkept : kept.Sublist (without path (after capacity past).entries))
    (hentries : (after capacity (u :: past)).entries = kept ++ [(path, node)])
    (htouches : ∀ p, (after capacity past).touches p u = (p == path))
    (hbounded : (after capacity (u :: past)).size ≤ (after capacity (u :: past)).capacity)
    (henabled : (after capacity (u :: past)).enabled = true) : InOrder capacity (u :: past) := by
  have hmem {e : Path × Node} (he : e ∈ kept) : e ∈ (after capacity past).entries ∧
      (after capacity past).touches e.1 u = false := by
    obtain ⟨hheld, hne⟩ := mem_without.1 (hkept.mem he)
    exact ⟨hheld, by rw [htouches]; exact beq_eq_false_iff_ne.2 hne⟩
  -- Only `path` is touched: it is the most recent now, and all others wait one use longer.
  have hlast : idle? capacity path (u :: past) = some 0 := by
    rw [idle?, htouches, beq_self_eq_true, if_pos rfl]
  have hidle {e : Path × Node} (he : e ∈ kept) :
      ∃ i, idle? capacity e.1 (u :: past) = some (i + 1) := by
    obtain ⟨hheld, huntouched⟩ := hmem he
    obtain ⟨i, hi⟩ := Option.isSome_iff_exists.1 (h.touched e hheld)
    exact ⟨i, by rw [idle?_untouched huntouched, hi]; rfl⟩
  refine ⟨hbounded, fun hdisabled => ?_, fun e he => ?_, ?_⟩
  · rw [henabled] at hdisabled
    cases hdisabled
  · rw [hentries] at he
    rcases List.mem_append.1 he with he | he
    · obtain ⟨i, hi⟩ := hidle he
      rw [hi]
      rfl
    · obtain rfl := List.mem_singleton.1 he
      rw [hlast]
      rfl
  · rw [hentries, List.pairwise_append]
    refine ⟨?_, List.pairwise_singleton _ _, fun e he f hf => ?_⟩
    · have hold := h.ordered.sublist (hkept.trans List.filter_sublist)
      exact hold.imp_of_mem fun he hf holder => holder.untouched (hmem he).2 (hmem hf).2
    · obtain rfl := List.mem_singleton.1 hf
      obtain ⟨i, hi⟩ := hidle he
      exact ⟨i + 1, 0, hi, hlast, by omega⟩

theorem inOrder_put (h : InOrder capacity past) :
    InOrder capacity (.put path node :: past) := by
  cases henabled : (after capacity past).enabled with
  | false =>
    have hsame : after capacity (.put path node :: past) = after capacity past := by
      simp [after, use, put, henabled]
    have hnone := h.disabled henabled
    refine h.sublist (by rw [hsame]) (fun e he => ?_) fun _ => by rw [hsame, hnone]
    rw [hsame, hnone] at he
    cases he
  | true =>
    obtain ⟨hentries, -⟩ := h.entries_put path node henabled
    refine h.snoc (List.drop_sublist _ _) hentries (fun p => rfl) ?_ ?_
    · rw [after, use, size, put, if_pos henabled]
      simp only [List.length_drop]
      omega
    · rw [after, use, put, if_pos henabled]
      exact henabled

theorem inOrder_get (h : InOrder capacity past) : InOrder capacity (.get path :: past) := by
  cases hlookup : (after capacity past).entries.lookup path with
  | none =>
    have hentries := get_none hlookup
    refine h.sublist (by rw [after, use, hentries]) (fun e he => ?_) fun hdisabled => ?_
    · rw [touches, get_eq_lookup h.disabled, hlookup]
      simp
    · rw [after, use, hentries]
      apply h.disabled
      rw [after, use, get] at hdisabled
      split at hdisabled
      · rw [hlookup] at hdisabled
        exact hdisabled
      · exact hdisabled
  | some node =>
    have hheld : (after capacity past).holds path = true := by rw [holds, hlookup]; rfl
    have henabled := h.enabled_of_holds hheld
    have hlength := length_without h.distinct path
    rw [hheld, Bool.toNat_true] at hlength
    refine h.snoc (List.Sublist.refl _) (get_some henabled hlookup) (fun p => ?_) ?_ ?_
    · rw [touches, get_eq_lookup h.disabled, hlookup]
      simp
    · rw [after_capacity, ← after_capacity past, size, after, use, get_some henabled hlookup,
        List.length_append, List.length_singleton, hlength]
      exact h.bounded
    · simp [after, use, get, henabled, hlookup]

theorem inOrder (capacity : Nat) (past : List Use) : InOrder capacity past := by
  induction past with
  | nil => exact ⟨Nat.zero_le _, fun _ => rfl, by simp [after, empty], by simp [after, empty]⟩
  | cons u past ih =>
    cases u with
    | put path node => exact inOrder_put ih
    | get path => exact inOrder_get ih
    | remove path =>
      refine ih.sublist List.filter_sublist (fun _ _ => rfl) fun hdisabled => ?_
      simp [after, use, remove, ih.disabled hdisabled, without]
    | removeBelow path =>
      refine ih.sublist List.filter_sublist (fun _ _ => rfl) fun hdisabled => ?_
      simp [after, use, removeBelow, ih.disabled hdisabled]
    | clear => exact ih.sublist (List.nil_sublist _) (fun _ _ => rfl) fun _ => rfl
    | setEnabled enabled =>
      cases enabled with
      | false => exact ih.sublist (List.nil_sublist _) (fun _ _ => rfl) fun _ => rfl
      | true => exact ih.sublist (List.Sublist.refl _) (fun _ _ => rfl) fun h => by cases h

/-! ## What is dropped -/

theorem holds_of_mem {e : Path × Node} (h : e ∈ c.entries) : c.holds e.1 = true :=
  holds_iff.2 (List.mem_map_of_mem h)

theorem not_holds_iff : c.holds path = false ↔ ∀ e ∈ c.entries, e.1 ≠ path := by
  rw [← Bool.not_eq_true, holds_iff, List.mem_map]
  constructor
  · intro h e he hsame
    exact h ⟨e, he, hsame⟩
  · rintro h ⟨e, he, hsame⟩
    exact h e he hsame

theorem InOrder.oldest_iff (h : InOrder capacity past) {e : Path × Node} {rest : List (Path × Node)}
    (hentries : (after capacity past).entries = e :: rest) :
    IsOldest capacity past path ↔ path = e.1 := by
  have hordered := h.ordered
  rw [hentries, List.pairwise_cons] at hordered
  have hfirst : (after capacity past).holds e.1 = true :=
    holds_of_mem (by rw [hentries]; exact List.mem_cons_self)
  constructor
  · rintro ⟨hheld, holdest⟩
    by_contra hne
    obtain ⟨f, hf, rfl⟩ := List.mem_map.1 (holds_iff.1 hheld)
    rw [hentries] at hf
    rcases List.mem_cons.1 hf with rfl | hf
    · exact hne rfl
    · exact ((hordered.1 f hf).trans (holdest e.1 hfirst (Ne.symm hne))).irrefl
  · rintro rfl
    refine ⟨hfirst, fun q hq hne => ?_⟩
    obtain ⟨f, hf, rfl⟩ := List.mem_map.1 (holds_iff.1 hq)
    rw [hentries] at hf
    rcases List.mem_cons.1 hf with rfl | hf
    · exact absurd rfl hne
    · exact hordered.1 f hf

theorem overflows_iff :
    (after capacity past).overflows u = true ↔
      ∃ p n, u = .put p n ∧ (after capacity past).enabled = true ∧
        (after capacity past).holds p = false ∧
        (after capacity past).size = (after capacity past).capacity := by
  cases u with
  | put p n => simp [overflows, and_assoc]
  | get | remove | removeBelow | clear | setEnabled => simp [overflows]

theorem entries_of_full
    (hfull : (after capacity past).size = (after capacity past).capacity) :
    ∃ e rest, (after capacity past).entries = e :: rest := by
  cases hentries : (after capacity past).entries with
  | nil =>
    rw [after_capacity, size, hentries, List.length_nil] at hfull
    omega
  | cons e rest => exact ⟨e, rest, rfl⟩

theorem put_dropped_iff (h : InOrder capacity past)
    (hheld : (after capacity past).holds q = true) :
    (after capacity (.put path node :: past)).holds q = false ↔
      (after capacity past).overflows (.put path node) = true ∧ IsOldest capacity past q := by
  obtain ⟨hentries, -⟩ := h.entries_put path node (h.enabled_of_holds hheld)
  obtain ⟨e, he, rfl⟩ := List.mem_map.1 (holds_iff.1 hheld)
  rw [not_holds_iff, hentries]
  -- Below the bound a put takes nothing out but the entry of its own path, which comes back last.
  cases hover : (after capacity past).overflows (.put path node) with
  | false =>
    simp only [Bool.toNat_false, List.drop_zero, Bool.false_eq_true, false_and, iff_false]
    intro hall
    by_cases hpath : e.1 = path
    · exact hall (path, node) (by simp) hpath.symm
    · exact hall e (List.mem_append_left _ (mem_without.2 ⟨he, hpath⟩)) rfl
  | true =>
    obtain ⟨_, _, hput, -, hnew, hfull⟩ := overflows_iff.1 hover
    cases hput
    obtain ⟨first, rest, hfirst⟩ := entries_of_full hfull
    have hdistinct := h.distinct
    rw [hfirst, List.map_cons, List.nodup_cons] at hdistinct
    rw [h.oldest_iff hfirst, without_of_not_holds hnew, hfirst, Bool.toNat_true, List.drop_one,
      List.tail_cons]
    constructor
    · intro hall
      rw [hfirst] at he
      rcases List.mem_cons.1 he with rfl | he
      · exact ⟨rfl, rfl⟩
      · exact absurd rfl (hall e (List.mem_append_left _ he))
    · rintro ⟨-, hsame⟩ f hf
      rcases List.mem_append.1 hf with hf | hf
      · rw [hsame]
        rintro heq
        exact hdistinct.1 (heq ▸ List.mem_map_of_mem hf)
      · obtain rfl := List.mem_singleton.1 hf
        exact fun heq => not_holds_iff.1 hnew e he heq.symm

theorem holds_get (h : InOrder capacity past) (hheld : (after capacity past).holds q = true) :
    (after capacity (.get path :: past)).holds q = true := by
  cases hlookup : (after capacity past).entries.lookup path with
  | none => rwa [holds, after, use, get_none hlookup, ← holds]
  | some node =>
    have henabled := h.enabled_of_holds hheld
    obtain ⟨e, he, rfl⟩ := List.mem_map.1 (holds_iff.1 hheld)
    rw [holds_iff, after, use, get_some henabled hlookup, List.mem_map]
    by_cases hpath : e.1 = path
    · exact ⟨(path, node), by simp, hpath.symm⟩
    · exact ⟨e, List.mem_append_left _ (mem_without.2 ⟨he, hpath⟩), rfl⟩

theorem filtered_iff {keep : Path × Node → Bool} (hheld : (after capacity past).holds q = true)
    (hkeep : ∀ e, e.1 = q → keep e = !u.ends q)
    (hentries : (after capacity (u :: past)).entries =
      (after capacity past).entries.filter keep) :
    (after capacity (u :: past)).holds q = false ↔ u.ends q = true := by
  obtain ⟨e, he, rfl⟩ := List.mem_map.1 (holds_iff.1 hheld)
  rw [not_holds_iff, hentries]
  constructor
  · intro hall
    by_contra hends
    exact hall e (List.mem_filter.2 ⟨he, by rw [hkeep e rfl]; simpa using hends⟩) rfl
  · intro hends f hf hsame
    have hkept := (List.mem_filter.1 hf).2
    rw [hkeep f hsame, hends] at hkept
    cases hkept

theorem dropped_iff (h : InOrder capacity past) (hheld : (after capacity past).holds q = true) :
    (after capacity (u :: past)).holds q = false ↔ Drops capacity past u q := by
  cases u with
  | put path node => simpa [Drops, Use.ends] using put_dropped_iff h hheld
  | get path => simp [Drops, Use.ends, overflows, holds_get h hheld]
  | remove path =>
    rw [Drops, overflows, filtered_iff hheld (fun e he => by rw [he]; rfl) rfl]
    simp
  | removeBelow path =>
    rw [Drops, overflows, filtered_iff hheld (fun e he => by rw [he]; rfl) rfl]
    simp
  | clear => simp [Drops, Use.ends, after, use, clear, holds]
  | setEnabled enabled =>
    cases enabled with
    | false => simp [Drops, Use.ends, after, use, setEnabled, holds]
    | true =>
      have hsame : (after capacity (.setEnabled true :: past)).holds q = true := hheld
      simp [Drops, Use.ends, overflows, hsame]

/-! ## What is found -/

theorem found_iff (capacity : Nat) (past : List Use) :
    (after capacity past).entries.lookup path = some node ↔ Remembers capacity path node past := by
  induction past with
  | nil =>
    constructor
    · intro h
      cases h
    · rintro ⟨⟩
  | cons u past ih =>
    have h := inOrder capacity past
    have hnext := inOrder capacity (u :: past)
    constructor
    · intro hfound
      have hmem := Keyed.mem_of_lookup hfound
      have hheld : (after capacity (u :: past)).holds path = true := holds_of_mem hmem
      -- Only a put gives a path another node; every other use keeps the node or drops it.
      by_cases hput : ∃ n, u = .put path n
      · obtain ⟨n, rfl⟩ := hput
        have henabled : (after capacity past).enabled = true := by
          by_contra hdisabled
          have hnone := h.disabled (by simpa using hdisabled)
          simp [after, use, put, hdisabled, hnone] at hmem
        have hlast : (path, n) ∈ (after capacity (.put path n :: past)).entries := by
          rw [(h.entries_put path n henabled).1]
          simp
        rw [Keyed.lookup_of_nodup hnext.distinct hlast] at hfound
        cases hfound
        exact .put henabled
      · obtain hmem | rfl := mem_use hmem
        · have hbefore : (after capacity past).holds path = true := holds_of_mem hmem
          refine .later (ih.1 (Keyed.lookup_of_nodup h.distinct hmem)) (fun n hn => hput ⟨n, hn⟩) ?_
          rw [← dropped_iff h hbefore, hheld]
          simp
        · exact absurd ⟨node, rfl⟩ hput
    · intro hremembers
      cases hremembers with
      | put henabled =>
        refine Keyed.lookup_of_nodup hnext.distinct ?_
        rw [(h.entries_put path node henabled).1]
        simp
      | later hpast hput hkept =>
        have hlookup := ih.2 hpast
        have hheld : (after capacity past).holds path = true := by rw [holds, hlookup]; rfl
        rw [← dropped_iff h hheld, Bool.not_eq_false] at hkept
        obtain ⟨n, hn⟩ := Option.isSome_iff_exists.1 hkept
        obtain hmem | rfl := mem_use (Keyed.mem_of_lookup hn)
        · rw [Keyed.lookup_of_nodup h.distinct hmem] at hlookup
          exact hn.trans hlookup
        · exact absurd rfl (hput n)

/-! ## Counters -/

theorem counters_use (h : InOrder capacity past) (u : Use) :
    (after capacity (u :: past)).evictions =
        (after capacity past).evictions + ((after capacity past).overflows u).toNat ∧
      (after capacity (u :: past)).hits =
        (after capacity past).hits + ((after capacity past).hits? u).toNat ∧
      (after capacity (u :: past)).misses =
        (after capacity past).misses + ((after capacity past).misses? u).toNat := by
  cases u with
  | put path node =>
    cases henabled : (after capacity past).enabled with
    | false => simp [after, use, put, overflows, hits?, misses?, henabled]
    | true =>
      obtain ⟨-, hevictions⟩ := h.entries_put path node henabled
      exact ⟨hevictions, by simp [after, use, put, henabled, hits?],
        by simp [after, use, put, henabled, misses?]⟩
  | get path =>
    have hget := get_eq_lookup h.disabled path
    cases henabled : (after capacity past).enabled with
    | false => simp [after, use, get, overflows, hits?, misses?, henabled]
    | true =>
      cases hlookup : (after capacity past).entries.lookup path <;>
        simp [after, use, get, overflows, hits?, misses?, henabled, hlookup]
  | remove | removeBelow | clear | setEnabled => exact ⟨rfl, rfl, rfl⟩

/-! ## All uses -/

theorem oldest_of_overflow (h : InOrder capacity past)
    (hover : (after capacity past).overflows u = true) :
    ∃! path, IsOldest capacity past path := by
  obtain ⟨_, _, -, -, -, hfull⟩ := overflows_iff.1 hover
  obtain ⟨e, rest, hentries⟩ := entries_of_full hfull
  exact ⟨e.1, (h.oldest_iff hentries).2 rfl, fun path hpath => (h.oldest_iff hentries).1 hpath⟩

theorem evicts_least_recent (capacity : Nat) (past : List Use) : IsExact capacity past := by
  have h := inOrder capacity past
  refine ⟨after_capacity past, after_capacity past ▸ h.bounded, h.distinct, h.disabled,
    fun path node => ?_, fun u path hheld => dropped_iff h hheld,
    fun u hover => oldest_of_overflow h hover, ?_, ?_, ?_⟩
  · rw [get_eq_lookup h.disabled]
    exact found_iff capacity past
  all_goals
    clear h
    induction past with
    | nil => rfl
    | cons u past ih =>
      obtain ⟨hevictions, hhits, hmisses⟩ := counters_use (inOrder capacity past) u
      simp only [times, hevictions, hhits, hmisses, ih]

end

end Cache

/-! ## A small example

The global snapshot is looked up again before the cache is full, so the first user's snapshot goes.
-/

namespace Sample

example :
    ((Cache.after 2 [.put bob (app "3"), .get global, .put alice (app "2"),
      .put global (app "1")]).entries.map Prod.fst) = [global, bob] := by decide

end Sample

end ScopedConfig
