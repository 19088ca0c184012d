/-!
# Sorted association lists

A map from keys to values is a list of pairs in increasing order of the keys. The order of texts is
the order of their code points. `sorted_insert` and `sorted_ofList` keep the lists sorted.
-/

namespace ScopedConfig.Keyed

variable {κ α β : Type} [Ord κ]

/-- Strictly increasing keys, so no key occurs twice. -/
def Sorted (l : List (κ × α)) : Prop :=
  l.Pairwise fun a b => compare a.1 b.1 = .lt

/-- Puts `a` at the key `k`, in place of what was there. -/
def insert (k : κ) (a : α) : List (κ × α) → List (κ × α)
  | [] => [(k, a)]
  | (k', a') :: rest =>
    match compare k k' with
    | .lt => (k, a) :: (k', a') :: rest
    | .eq => (k, a) :: rest
    | .gt => (k', a') :: insert k a rest

/-- The last of several pairs with one key counts. -/
def ofList (l : List (κ × α)) : List (κ × α) :=
  l.foldl (fun acc p => insert p.1 p.2 acc) []

/-- Adds the pairs of `extra` whose keys `l` lacks. -/
def fillFrom [BEq κ] (extra l : List (κ × α)) : List (κ × α) :=
  extra.foldl (fun acc p => if (l.lookup p.1).isSome then acc else insert p.1 p.2 acc) l

def erase [BEq κ] (k : κ) (l : List (κ × α)) : List (κ × α) :=
  l.filter fun p => !(p.1 == k)

/-- The same for lists of keys alone. -/
def insertKey (k : κ) : List κ → List κ
  | [] => [k]
  | k' :: rest =>
    match compare k k' with
    | .lt => k :: k' :: rest
    | .eq => k' :: rest
    | .gt => k' :: insertKey k rest

def keySet (l : List κ) : List κ :=
  l.foldl (fun acc k => insertKey k acc) []

/-! ## Order -/

theorem sorted_nil : Sorted ([] : List (κ × α)) := List.Pairwise.nil

theorem mem_keys_insert {k : κ} {a : α} {l : List (κ × α)} {p : κ × α}
    (h : p ∈ insert k a l) : p = (k, a) ∨ p ∈ l := by
  induction l with
  | nil => simpa [insert] using h
  | cons q rest ih =>
    obtain ⟨k', a'⟩ := q
    cases hc : compare k k' <;> simp only [insert, hc, List.mem_cons] at h ⊢
    · exact h
    · rcases h with h | h
      · exact .inl h
      · exact .inr (.inr h)
    · rcases h with h | h
      · exact .inr (.inl h)
      · rcases ih h with h | h
        · exact .inl h
        · exact .inr (.inr h)

theorem sorted_insert [Std.TransOrd κ] [Std.LawfulEqOrd κ] (k : κ) (a : α) {l : List (κ × α)}
    (h : Sorted l) : Sorted (insert k a l) := by
  induction l with
  | nil => simp [insert, Sorted]
  | cons q rest ih =>
    obtain ⟨k', a'⟩ := q
    have hhead := (List.pairwise_cons.1 h).1
    have htail := (List.pairwise_cons.1 h).2
    cases hc : compare k k' <;> simp only [insert, hc]
    · refine List.pairwise_cons.2 ⟨?_, h⟩
      intro p hp
      rcases List.mem_cons.1 hp with rfl | hp
      · exact hc
      · exact Std.TransCmp.lt_trans hc (hhead p hp)
    · have : k = k' := Std.LawfulEqOrd.eq_of_compare hc
      subst this
      exact List.pairwise_cons.2 ⟨fun p hp => hhead p hp, htail⟩
    · refine List.pairwise_cons.2 ⟨?_, ih htail⟩
      intro p hp
      rcases mem_keys_insert hp with rfl | hp
      · exact Std.OrientedCmp.lt_of_gt hc
      · exact hhead p hp

theorem sorted_ofList [Std.TransOrd κ] [Std.LawfulEqOrd κ] (l : List (κ × α)) :
    Sorted (ofList l) := by
  suffices ∀ acc : List (κ × α), Sorted acc →
      Sorted (l.foldl (fun acc p => insert p.1 p.2 acc) acc) from this [] sorted_nil
  induction l with
  | nil => exact fun _ h => h
  | cons p rest ih => exact fun acc h => ih _ (sorted_insert p.1 p.2 h)

end ScopedConfig.Keyed
