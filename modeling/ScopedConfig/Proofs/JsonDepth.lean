import ScopedConfig.Json.Reader

/-!
# The depth of what is read

What is read of a text nests no deeper than the limit of the reader, unless the reader lets part of
it pass unread.
-/

namespace ScopedConfig.Json

namespace Want

mutual

/-- What is read of the value is read in full. -/
def isFull : Want → Bool
  | nothing => false
  | everything => true
  | members fields => allFull fields
termination_by structural want => want

def allFull : List (String × Want) → Bool
  | [] => true
  | (_, want) :: rest => want.isFull && allFull rest
termination_by structural fields => fields

end

variable {want : Want}

theorem isNothing_of_isFull (h : want.isFull = true) : want.isNothing = false := by
  cases want with
  | nothing => cases h
  | everything | members => rfl

theorem isFull_of_lookup {fields : List (String × Want)} {key : String}
    (h : allFull fields = true) (hkey : fields.lookup key = some want) : want.isFull = true := by
  induction fields with
  | nil => cases hkey
  | cons field rest ih =>
    obtain ⟨name, first⟩ := field
    rw [allFull, Bool.and_eq_true] at h
    rw [List.lookup_cons] at hkey
    cases hname : key == name with
    | true =>
      rw [hname] at hkey
      exact Option.some.inj hkey ▸ h.1
    | false =>
      rw [hname] at hkey
      exact ih h.2 hkey

theorem isFull_member {key : String} (h : want.isFull = true)
    (hkey : (want.member key).isNothing = false) : (want.member key).isFull = true := by
  cases want with
  | nothing => cases h
  | everything => rfl
  | members fields =>
    rw [isFull] at h
    rw [member] at hkey ⊢
    cases hfield : fields.lookup key with
    | none =>
      rw [hfield] at hkey
      cases hkey
    | some field => exact isFull_of_lookup h hfield

theorem isFull_item (h : want.isFull = true) :
    want.item.1.isFull = true ∧ want.item.2.isFull = true := by
  cases want with
  | nothing => cases h
  | everything => exact ⟨rfl, rfl⟩
  | members fields =>
    cases fields with
    | nil => exact ⟨rfl, rfl⟩
    | cons field rest =>
      rw [isFull, allFull, Bool.and_eq_true] at h
      exact h

end Want

namespace Reader

variable {want : Want} {fuel depth inner : Nat} {cs rest : List Char}

theorem inner?_eq_some (hwant : want.isFull = true) (h : inner? want depth = some inner) :
    depth = inner + 1 := by
  rw [inner?, Want.isNothing_of_isFull hwant, if_neg Bool.false_ne_true] at h
  split at h
  · cases h
  · have := Option.some.inj h
    omega

theorem depth_value? {l : Literal} {j : Json} (h : l.value? = some j) : j.depth = 0 := by
  obtain ⟨negative, whole, fraction, exponent⟩ := l
  cases negative
  all_goals
    rw [Literal.value?] at h
    simp only [Bool.false_eq_true, ↓reduceIte] at h
    split at h
    · cases h
      rfl
    · obtain ⟨_, -, h⟩ := Option.bind_eq_some_iff.1 h
      obtain ⟨_, -, h⟩ := Option.bind_eq_some_iff.1 h
      cases h
      rfl

theorem depth_number {j : Json} (h : number want cs = some (j, rest)) : j.depth = 0 := by
  obtain ⟨⟨l, after⟩, -, h⟩ := Option.bind_eq_some_iff.1 h
  simp only at h
  split at h
  · cases h
    rfl
  · obtain ⟨number, hnumber, h⟩ := Option.bind_eq_some_iff.1 h
    cases h
    exact depth_value? hnumber

/-- What the steps read stays within the depth that is left. -/
structure Bounded (fuel : Nat) : Prop where
  value : ∀ {want : Want} {depth : Nat} {cs rest : List Char} {j : Json}, want.isFull = true →
    Reader.value want fuel depth cs = some (j, rest) → j.depth ≤ depth
  items : ∀ {want : Want} {depth : Nat} {cs rest : List Char} {js : List Json},
    want.isFull = true → Reader.items want fuel depth cs = some (js, rest) →
    depthItems js ≤ depth
  members : ∀ {want : Want} {depth : Nat} {cs rest : List Char} {ms : List (String × Json)},
    want.isFull = true → Reader.members want fuel depth cs = some (ms, rest) →
    depthMembers ms ≤ depth

theorem bounded_zero : Bounded 0 where
  value _ h := by cases h
  items _ h := by cases h
  members _ h := by cases h

theorem Bounded.value_succ (ih : Bounded fuel) {j : Json} (hwant : want.isFull = true)
    (h : Reader.value want (fuel + 1) depth cs = some (j, rest)) : j.depth ≤ depth := by
  rw [Reader.value] at h
  split at h
  case h_1 =>
    obtain ⟨_, -, h⟩ := Option.map_eq_some_iff.1 h
    cases h
    exact Nat.zero_le _
  case h_2 =>
    cases hinner : inner? want depth with
    | none =>
      rw [hinner] at h
      cases h
    | some inner =>
      rw [hinner] at h
      -- Inside the brackets one level less is left, and the value is one level deeper.
      obtain rfl := inner?_eq_some hwant hinner
      split at h
      case h_1 => contradiction
      case h_2 =>
        cases h
        exact Nat.le_add_left 1 _
      case h_3 hsome _ =>
        cases hsome
        obtain ⟨⟨js, _⟩, hjs, h⟩ := Option.map_eq_some_iff.1 h
        cases h
        exact Nat.succ_le_succ (ih.items hwant hjs)
  case h_3 =>
    cases hinner : inner? want depth with
    | none =>
      rw [hinner] at h
      cases h
    | some inner =>
      rw [hinner] at h
      obtain rfl := inner?_eq_some hwant hinner
      split at h
      case h_1 => contradiction
      case h_2 =>
        cases h
        exact Nat.le_add_left 1 _
      case h_3 hsome _ =>
        cases hsome
        obtain ⟨⟨ms, _⟩, hms, h⟩ := Option.map_eq_some_iff.1 h
        cases h
        exact Nat.succ_le_succ (ih.members hwant hms)
  case h_4 =>
    split at h
    · cases h
      exact Nat.zero_le _
    · cases h
      exact Nat.zero_le _
    · cases h
      exact Nat.zero_le _
    · rw [depth_number h]
      exact Nat.zero_le _

theorem Bounded.items_succ (ih : Bounded fuel) {js : List Json} (hwant : want.isFull = true)
    (h : Reader.items want (fuel + 1) depth cs = some (js, rest)) : depthItems js ≤ depth := by
  obtain ⟨hfirst, hlater⟩ := Want.isFull_item hwant
  rw [Reader.items] at h
  split at h
  case h_1 => cases h
  case h_2 j _ hj =>
    have hj := ih.value hfirst hj
    split at h
    · obtain ⟨⟨others, _⟩, hothers, h⟩ := Option.map_eq_some_iff.1 h
      cases h
      exact Nat.max_le.2 ⟨hj, ih.items hlater hothers⟩
    · cases h
      exact Nat.max_le.2 ⟨hj, Nat.zero_le _⟩
    · cases h

theorem depthMembers_append (first others : List (String × Json)) :
    depthMembers (first ++ others) = max (depthMembers first) (depthMembers others) := by
  induction first with
  | nil => exact (Nat.zero_max _).symm
  | cons m rest ih => rw [List.cons_append, depthMembers, depthMembers, ih, Nat.max_assoc]

theorem Bounded.members_succ (ih : Bounded fuel) {ms : List (String × Json)}
    (hwant : want.isFull = true)
    (h : Reader.members want (fuel + 1) depth cs = some (ms, rest)) : depthMembers ms ≤ depth := by
  rw [Reader.members] at h
  split at h
  case h_2 => cases h
  case h_1 =>
    split at h
    case h_1 => cases h
    case h_2 key _ _ =>
      split at h
      case h_2 => cases h
      case h_1 =>
        split at h
        case h_1 => cases h
        case h_2 j _ hj =>
          -- A member that is not wanted is left out, so however deep it is, it does not count.
          have hfound : depthMembers
              (if (want.member key).isNothing then [] else [(key, j)]) ≤ depth := by
            split
            case isTrue => exact Nat.zero_le _
            case isFalse hkey =>
              have hfull := Want.isFull_member hwant (Bool.eq_false_iff.2 hkey)
              exact Nat.max_le.2 ⟨ih.value hfull hj, Nat.zero_le _⟩
          simp only at h
          split at h
          · obtain ⟨⟨others, _⟩, hothers, h⟩ := Option.map_eq_some_iff.1 h
            cases h
            rw [depthMembers_append]
            exact Nat.max_le.2 ⟨hfound, ih.members hwant hothers⟩
          · cases h
            exact hfound
          · cases h

theorem bounded (fuel : Nat) : Bounded fuel := by
  induction fuel with
  | zero => exact bounded_zero
  | succ fuel ih =>
    exact ⟨fun hwant h => ih.value_succ hwant h, fun hwant h => ih.items_succ hwant h,
      fun hwant h => ih.members_succ hwant h⟩

end Reader

/-- A text that is read in full nests no deeper than the limit. -/
theorem depth_parse {want : Want} {depth : Nat} {text : String} {j : Json}
    (hwant : want.isFull = true) (h : parse want depth text = some j) : j.depth ≤ depth := by
  rw [parse] at h
  split at h
  case h_1 hvalue =>
    split at h
    · cases h
      exact (Reader.bounded _).value hwant hvalue
    · cases h
  case h_2 => cases h

end ScopedConfig.Json
