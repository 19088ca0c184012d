import Mathlib.Data.List.DropRight
import ScopedConfig.Json.Printer
import ScopedConfig.Json.Reader
import ScopedConfig.Proofs.Literal

/-!
# JSON text reads back

What the printer lays out on many lines, the reader takes in again, as long as all of it is wanted,
64 bits hold its numbers, and it is not nested too deep.
-/

namespace ScopedConfig.Json

namespace Reader

/-! ## Strings -/

theorem hexValue?_hex4 {c : Char} (h : c.toNat < 32) :
    hexValue? '0' '0' (Nat.digitChar (c.toNat / 16)) (Nat.digitChar (c.toNat % 16)) =
      some c.toNat := by
  have hall : ∀ n < 32, hexValue? '0' '0' (Nat.digitChar (n / 16)) (Nat.digitChar (n % 16)) =
      some n := by decide
  exact hall c.toNat h

theorem stringBody_escape (c : Char) (rest : List Char) :
    stringBody (escape c ++ rest) = (stringBody rest).map fun (s, r) => (c :: s, r) := by
  unfold escape
  split
  case isTrue h =>
    subst h
    simp [stringBody, simpleEscape?]
  case isFalse hquote =>
  split
  case isTrue h =>
    subst h
    simp [stringBody, simpleEscape?]
  case isFalse hslash =>
  split
  case isTrue hplain =>
    rw [List.singleton_append, stringBody]
    · simp [hslash, show ¬ c.toNat < 32 by omega]
    all_goals simp_all
  case isFalse hcontrol =>
    have hlow : c.toNat < 32 := by omega
    split
    case h_6 =>
      have hhigh : isHighHalf c.toNat = false := by simp [isHighHalf]; omega
      have hlowHalf : isLowHalf c.toNat = false := by simp [isLowHalf]; omega
      simp only [hex4, List.cons_append, List.nil_append]
      rw [stringBody]
      simp [hexValue?_hex4 hlow, hhigh, hlowHalf, Char.ofNat_toNat]
    case h_1 hcode | h_2 hcode | h_3 hcode | h_4 hcode | h_5 hcode =>
      have hc : c = Char.ofNat c.toNat := (Char.ofNat_toNat c).symm
      rw [hcode] at hc
      subst hc
      simp [stringBody, simpleEscape?]

theorem stringBody_escapes (cs rest : List Char) :
    stringBody (cs.flatMap escape ++ '"' :: rest) = some (cs, rest) := by
  induction cs with
  | nil => simp [stringBody]
  | cons c cs ih =>
    rw [List.flatMap_cons, List.append_assoc, stringBody_escape, ih]
    rfl

theorem string_quoted {want : Want} (hwant : want.isNothing = false) (s : String)
    (rest : List Char) :
    string want (s.toList.flatMap escape ++ '"' :: rest) = some (s, rest) := by
  simp [string, hwant, stringBody_escapes, String.ofList_toList]

end Reader

/-! ## Trees -/

@[elab_as_elim]
theorem tree_induction {motive : Json → Prop} (null : motive .null)
    (bool : ∀ b, motive (.bool b)) (int : ∀ i, motive (.int i)) (real : ∀ x, motive (.real x))
    (str : ∀ s, motive (.str s)) (arr : ∀ items, (∀ j ∈ items, motive j) → motive (.arr items))
    (obj : ∀ members, (∀ m ∈ members, motive m.2) → motive (.obj members)) (j : Json) :
    motive j := by
  refine @Json.rec motive (fun items => ∀ j ∈ items, motive j)
    (fun members => ∀ m ∈ members, motive m.2) (fun m => motive m.2) null bool int real str arr obj
    (by simp) ?_ (by simp) ?_ (fun _ _ h => h) j
  all_goals
    intro head tail hhead htail e he
    rcases List.mem_cons.1 he with rfl | he
    · exact hhead
    · exact htail e he

namespace Reader

mutual

/-- All of the value is wanted, and 64 bits hold its numbers. -/
def covers (want : Want) : Json → Bool
  | .null | .bool _ | .str _ => !want.isNothing
  | .int i => !want.isNothing && Text.fitsInt64 i
  | .real _ => false
  | .arr items => !want.isNothing && coversItems want items
  | .obj members => !want.isNothing && coversMembers want members
termination_by structural j => j

def coversItems (want : Want) : List Json → Bool
  | [] => true
  | j :: rest => covers want.item.1 j && coversItems want.item.2 rest
termination_by structural items => items

def coversMembers (want : Want) : List (String × Json) → Bool
  | [] => true
  | (k, j) :: rest => covers (want.member k) j && coversMembers want rest
termination_by structural members => members

end

mutual

/-- The steps that reading the value takes. -/
def steps : Json → Nat
  | .arr items => stepsItems items + 1
  | .obj members => stepsMembers members + 1
  | _ => 1
termination_by structural j => j

def stepsItems : List Json → Nat
  | [] => 0
  | j :: rest => max (steps j) (stepsItems rest) + 1
termination_by structural items => items

def stepsMembers : List (String × Json) → Nat
  | [] => 0
  | (_, j) :: rest => max (steps j) (stepsMembers rest) + 1
termination_by structural members => members

end

theorem fuel_of_steps {j : Json} {fuel : Nat} (h : steps j ≤ fuel) : ∃ n, fuel = n + 1 := by
  have hpos : 0 < steps j := by cases j <;> simp [steps]
  exact ⟨fuel - 1, by omega⟩

theorem isNothing_of_covers {want : Want} {j : Json} (h : covers want j = true) :
    want.isNothing = false := by
  cases j <;> simp_all [covers]

/-! ## Leaves -/

theorem skipBlanks_newLine (level : Nat) (cs : List Char) :
    skipBlanks (newLine level ++ cs) = skipBlanks cs := by
  have hblank (n : Nat) : skipBlanks (List.replicate n ' ' ++ cs) = skipBlanks cs := by
    induction n with
    | zero => rfl
    | succ n ih =>
      rw [← ih]
      simp [skipBlanks, List.replicate_succ]
  have hfirst : skipBlanks (newLine level ++ cs) =
      skipBlanks (List.replicate (2 * level) ' ' ++ cs) := by
    simp [skipBlanks, newLine]
  rw [hfirst, hblank]

theorem value_skipBlanks {want : Want} {fuel depth : Nat} {cs others : List Char}
    (h : skipBlanks cs = skipBlanks others) :
    value want fuel depth cs = value want fuel depth others := by
  cases fuel with
  | zero => rfl
  | succ fuel => rw [value, value, h]

theorem value_number {want : Want} {fuel depth : Nat} {c : Char} {cs : List Char}
    (hc : c.isDigit = true ∨ c = '-') :
    value want (fuel + 1) depth (c :: cs) = number want (c :: cs) := by
  have hne {other : Char} (hdigit : other.isDigit = false) (hminus : other ≠ '-') :
      c ≠ other := by
    rintro rfl
    simp_all
  have hstart : skipBlanks (c :: cs) = c :: cs := by
    have hblank : c ≠ ' ' := hne rfl (by decide)
    have hline : c ≠ '\n' := hne rfl (by decide)
    have htab : c ≠ '\t' := hne rfl (by decide)
    have hreturn : c ≠ '\r' := hne rfl (by decide)
    rw [skipBlanks, List.dropWhile_cons_of_neg]
    simp [hblank, hline, htab, hreturn]
  have hword {first : Char} {word : String} {letters : List Char}
      (hchars : word.toList = first :: letters) (hfirst : c ≠ first) :
      after? word (c :: cs) = none := by
    simp [after?, hchars, hfirst.symm]
  rw [value, hstart]
  split
  case h_1 h | h_2 h | h_3 h => exact absurd (List.cons.inj h).1 (hne rfl (by decide))
  case h_4 =>
    have hn : after? "null" (c :: cs) = none := hword rfl (hne rfl (by decide))
    have ht : after? "true" (c :: cs) = none := hword rfl (hne rfl (by decide))
    have hf : after? "false" (c :: cs) = none := hword rfl (hne rfl (by decide))
    simp only [hn, ht, hf]

theorem value_int {want : Want} (hwant : want.isNothing = false) {i : Int}
    (h : Text.fitsInt64 i = true) (fuel depth : Nat) {rest : List Char}
    (hrest : Literal.Ends rest) :
    value want (fuel + 1) depth ((toString i).toList ++ rest) = some (.int i, rest) := by
  have hread := Literal.read?_int i hrest
  obtain ⟨c, cs, hcs, hc⟩ :
      ∃ c cs, (toString i).toList = c :: cs ∧ (c.isDigit = true ∨ c = '-') := by
    rw [Literal.toList_toString_int]
    split
    · exact ⟨_, _, rfl, .inr rfl⟩
    · cases hdigits : Nat.toDigits 10 i.natAbs with
      | nil => exact absurd hdigits Nat.toDigits_ne_nil
      | cons c cs =>
        refine ⟨c, cs, rfl, .inl ?_⟩
        exact Nat.isDigit_of_mem_toDigits (b := 10) (n := i.natAbs) (by decide) (by decide)
          (by simp [hdigits])
  rw [hcs] at hread ⊢
  rw [List.cons_append, value_number hc, number, ← List.cons_append, hread]
  simp [hwant, Literal.value?_ofInt h]

theorem value_str {want : Want} (hwant : want.isNothing = false) (s : String) (fuel depth : Nat)
    (rest : List Char) :
    value want (fuel + 1) depth (quoted s ++ rest) = some (.str s, rest) := by
  have hstart : skipBlanks (quoted s ++ rest) =
      '"' :: (s.toList.flatMap escape ++ '"' :: rest) := by
    simp [skipBlanks, quoted]
  rw [value, hstart]
  simp only [string_quoted hwant, Option.map_some]

/-! ## Arrays and objects -/

/-- The value is read from its layout, whatever follows. -/
def Reads (j : Json) : Prop :=
  ∀ want level fuel depth rest, covers want j = true → j.depth ≤ depth → steps j ≤ fuel →
    Literal.Ends rest → value want fuel depth (j.layout level ++ rest) = some (j, rest)

theorem ends_newLine (level : Nat) (cs : List Char) : Literal.Ends (newLine level ++ cs) :=
  .inr ⟨_, .inr rfl⟩

theorem items_layout {own : List Json} (hown : ∀ j ∈ own, Reads j) (hne : own ≠ []) {want : Want}
    {level outer fuel depth : Nat} (rest : List Char) (hcovers : coversItems want own = true)
    (hdepth : depthItems own ≤ depth) (hsteps : stepsItems own ≤ fuel) :
    items want fuel depth (layoutItems level own ++ (newLine outer ++ ']' :: rest)) =
      some (own, rest) := by
  induction own generalizing want fuel with
  | nil => exact absurd rfl hne
  | cons j others ih =>
    rw [List.forall_mem_cons] at hown
    simp only [coversItems, Bool.and_eq_true] at hcovers
    simp only [depthItems, stepsItems] at hdepth hsteps
    obtain ⟨fuel, rfl⟩ : ∃ n, fuel = n + 1 := ⟨fuel - 1, by omega⟩
    have hread (after : List Char) (hafter : Literal.Ends after) :
        value want.item.1 fuel depth (newLine level ++ (j.layout level ++ after)) =
          some (j, after) := by
      rw [value_skipBlanks (skipBlanks_newLine level _)]
      exact hown.1 _ level fuel depth after hcovers.1 (by omega) (by omega) hafter
    cases others with
    | nil =>
      have hclose : skipBlanks (newLine outer ++ ']' :: rest) = ']' :: rest := by
        rw [skipBlanks_newLine]
        rfl
      rw [layoutItems, List.append_assoc, items, hread _ (ends_newLine _ _)]
      simp only [hclose]
    | cons next others =>
      have hmore := @ih hown.2 (by simp) want.item.2 fuel hcovers.2 (by omega) (by omega)
      have hcomma (cs : List Char) : skipBlanks (',' :: cs) = ',' :: cs := rfl
      rw [layoutItems, List.append_assoc, List.append_assoc, List.cons_append, items,
        hread _ (.inr ⟨_, .inl rfl⟩)]
      · simp only [hcomma, hmore, Option.map_some]
      · simp

theorem members_layout {own : List (String × Json)} (hown : ∀ m ∈ own, Reads m.2) (hne : own ≠ [])
    {want : Want} (hwant : want.isNothing = false) {level outer fuel depth : Nat}
    (rest : List Char) (hcovers : coversMembers want own = true)
    (hdepth : depthMembers own ≤ depth) (hsteps : stepsMembers own ≤ fuel) :
    members want fuel depth (layoutMembers level own ++ (newLine outer ++ '\x7d' :: rest)) =
      some (own, rest) := by
  induction own generalizing fuel with
  | nil => exact absurd rfl hne
  | cons m others ih =>
    obtain ⟨k, j⟩ := m
    rw [List.forall_mem_cons] at hown
    simp only [coversMembers, Bool.and_eq_true] at hcovers
    simp only [depthMembers, stepsMembers] at hdepth hsteps
    obtain ⟨fuel, rfl⟩ : ∃ n, fuel = n + 1 := ⟨fuel - 1, by omega⟩
    have hj : Reads j := hown.1
    have hkept := isNothing_of_covers hcovers.1
    have hkey (after : List Char) : skipBlanks (newLine level ++ (quoted k ++ after)) =
        '"' :: (k.toList.flatMap escape ++ '"' :: after) := by
      rw [skipBlanks_newLine]
      simp [skipBlanks, quoted]
    have hcolon (cs : List Char) : skipBlanks (':' :: cs) = ':' :: cs := rfl
    have hread (after : List Char) (hafter : Literal.Ends after) :
        value (want.member k) fuel depth (' ' :: (j.layout level ++ after)) = some (j, after) := by
      have hblank : skipBlanks (' ' :: (j.layout level ++ after)) =
          skipBlanks (j.layout level ++ after) := rfl
      rw [value_skipBlanks hblank]
      exact hj _ level fuel depth after hcovers.1 (by omega) (by omega) hafter
    cases others with
    | nil =>
      have hclose : skipBlanks (newLine outer ++ '\x7d' :: rest) = '\x7d' :: rest := by
        rw [skipBlanks_newLine]
        rfl
      simp only [layoutMembers, List.append_assoc, List.cons_append]
      rw [members, hkey]
      simp only [string_quoted hwant, hcolon, hread _ (ends_newLine _ _), hclose, hkept]
      rfl
    | cons next others =>
      have hmore := @ih hown.2 (by simp) fuel hcovers.2 (by omega) (by omega)
      have hcomma (cs : List Char) : skipBlanks (',' :: cs) = ',' :: cs := rfl
      rw [layoutMembers]
      · simp only [List.append_assoc, List.cons_append]
        rw [members, hkey]
        simp only [string_quoted hwant, hcolon, hread _ (.inr ⟨_, .inl rfl⟩), hcomma, hmore, hkept]
        rfl
      · simp

theorem skipBlanks_skipBlanks (cs : List Char) : skipBlanks (skipBlanks cs) = skipBlanks cs :=
  List.dropWhile_idempotent _ cs

theorem items_skipBlanks (want : Want) (fuel depth : Nat) (cs : List Char) :
    items want fuel depth (skipBlanks cs) = items want fuel depth cs := by
  cases fuel with
  | zero => rfl
  | succ fuel => rw [items, items, value_skipBlanks (skipBlanks_skipBlanks cs)]

theorem members_skipBlanks (want : Want) (fuel depth : Nat) (cs : List Char) :
    members want fuel depth (skipBlanks cs) = members want fuel depth cs := by
  cases fuel with
  | zero => rfl
  | succ fuel => rw [members, members, skipBlanks_skipBlanks]

theorem items_ne_close {want : Want} {fuel depth : Nat} {cs rest : List Char}
    (h : (items want fuel depth cs).isSome = true) : skipBlanks cs ≠ ']' :: rest := by
  intro hclose
  cases fuel with
  | zero => simp [items] at h
  | succ fuel =>
    have hnone : value want.item.1 fuel depth cs = none := by
      cases fuel with
      | zero => rfl
      | succ fuel =>
        rw [value, hclose]
        rfl
    rw [items, hnone] at h
    simp at h

theorem members_ne_close {want : Want} {fuel depth : Nat} {cs rest : List Char}
    (h : (members want fuel depth cs).isSome = true) : skipBlanks cs ≠ '\x7d' :: rest := by
  intro hclose
  cases fuel with
  | zero => simp [members] at h
  | succ fuel =>
    rw [members, hclose] at h
    simp at h

theorem array_layout {own : List Json} (hown : ∀ j ∈ own, Reads j) : Reads (.arr own) := by
  intro want level fuel depth rest hcovers hdepth hsteps _
  have hwant := isNothing_of_covers hcovers
  simp only [covers, hwant, Bool.not_false, Bool.true_and] at hcovers
  obtain ⟨fuel, rfl⟩ := fuel_of_steps hsteps
  simp only [Json.depth, steps] at hdepth hsteps
  obtain ⟨depth, rfl⟩ : ∃ n, depth = n + 1 := ⟨depth - 1, by omega⟩
  have hinner : inner? want (depth + 1) = some depth := by simp [inner?, hwant]
  have hopen (cs : List Char) : skipBlanks ('[' :: cs) = '[' :: cs := rfl
  cases own with
  | nil => simp [value, layout, skipBlanks, hinner]
  | cons j others =>
    have hread := @items_layout (j :: others) hown (by simp) want (level + 1) level fuel depth rest
      hcovers (by omega) (by omega)
    simp only [layout, List.append_assoc, List.cons_append, List.nil_append]
    rw [value, hopen]
    simp only [hinner]
    split
    case h_1 => contradiction
    case h_2 hclose _ => exact absurd hclose (items_ne_close (by rw [hread]; rfl))
    case h_3 hsome _ =>
      obtain rfl := Option.some.inj hsome
      rw [items_skipBlanks, hread]
      rfl

theorem object_layout {own : List (String × Json)} (hown : ∀ m ∈ own, Reads m.2) :
    Reads (.obj own) := by
  intro want level fuel depth rest hcovers hdepth hsteps _
  have hwant := isNothing_of_covers hcovers
  simp only [covers, hwant, Bool.not_false, Bool.true_and] at hcovers
  obtain ⟨fuel, rfl⟩ := fuel_of_steps hsteps
  simp only [Json.depth, steps] at hdepth hsteps
  obtain ⟨depth, rfl⟩ : ∃ n, depth = n + 1 := ⟨depth - 1, by omega⟩
  have hinner : inner? want (depth + 1) = some depth := by simp [inner?, hwant]
  have hopen (cs : List Char) : skipBlanks ('\x7b' :: cs) = '\x7b' :: cs := rfl
  cases own with
  | nil => simp [value, layout, skipBlanks, hinner]
  | cons m others =>
    have hread := @members_layout (m :: others) hown (by simp) want hwant (level + 1) level fuel
      depth rest hcovers (by omega) (by omega)
    simp only [layout, List.append_assoc, List.cons_append, List.nil_append]
    rw [value, hopen]
    simp only [hinner]
    split
    case h_1 => contradiction
    case h_2 hclose _ => exact absurd hclose (members_ne_close (by rw [hread]; rfl))
    case h_3 hsome _ =>
      obtain rfl := Option.some.inj hsome
      rw [members_skipBlanks, hread]
      rfl

theorem value_layout (j : Json) : Reads j := by
  induction j using tree_induction with
  | null =>
    intro want level fuel depth rest _ _ hsteps _
    obtain ⟨fuel, rfl⟩ := fuel_of_steps hsteps
    simp [value, layout, skipBlanks, after?]
    rfl
  | bool b =>
    intro want level fuel depth rest _ _ hsteps _
    obtain ⟨fuel, rfl⟩ := fuel_of_steps hsteps
    cases b <;> simp [value, layout, skipBlanks, after?] <;> rfl
  | int i =>
    intro want level fuel depth rest hcovers _ hsteps hrest
    obtain ⟨fuel, rfl⟩ := fuel_of_steps hsteps
    simp only [covers, Bool.and_eq_true, Bool.not_eq_true'] at hcovers
    exact value_int hcovers.1 hcovers.2 fuel depth hrest
  | real x =>
    intro want level fuel depth rest hcovers
    simp [covers] at hcovers
  | str s =>
    intro want level fuel depth rest hcovers _ hsteps _
    obtain ⟨fuel, rfl⟩ := fuel_of_steps hsteps
    exact value_str (isNothing_of_covers hcovers) s fuel depth rest
  | arr own ih => exact array_layout ih
  | obj own ih => exact object_layout ih

/-! ## Whole texts -/

theorem stepsItems_le {own : List Json}
    (hown : ∀ j ∈ own, ∀ level, steps j ≤ 2 * (j.layout level).length + 1) (level : Nat) :
    stepsItems own ≤ 2 * (layoutItems level own).length := by
  induction own with
  | nil => simp [stepsItems]
  | cons j others ih =>
    rw [List.forall_mem_cons] at hown
    have hj := hown.1 level
    have hothers := ih hown.2
    cases others with
    | nil =>
      simp only [stepsItems, layoutItems, newLine, List.length_append, List.length_cons]
      omega
    | cons next others =>
      rw [layoutItems]
      · simp only [stepsItems, newLine, List.length_append, List.length_cons] at hothers ⊢
        omega
      · simp

theorem stepsMembers_le {own : List (String × Json)}
    (hown : ∀ m ∈ own, ∀ level, steps m.2 ≤ 2 * (m.2.layout level).length + 1) (level : Nat) :
    stepsMembers own ≤ 2 * (layoutMembers level own).length := by
  induction own with
  | nil => simp [stepsMembers]
  | cons m others ih =>
    obtain ⟨k, j⟩ := m
    rw [List.forall_mem_cons] at hown
    have hj : steps j ≤ 2 * (j.layout level).length + 1 := hown.1 level
    have hothers := ih hown.2
    cases others with
    | nil =>
      simp only [stepsMembers, layoutMembers, newLine, List.length_append, List.length_cons]
      omega
    | cons next others =>
      rw [layoutMembers]
      · simp only [stepsMembers, newLine, List.length_append, List.length_cons] at hothers ⊢
        omega
      · simp

theorem steps_le (j : Json) : ∀ level, steps j ≤ 2 * (j.layout level).length + 1 := by
  induction j using tree_induction with
  | null | bool | int | real | str => simp [steps]
  | arr own ih =>
    intro level
    cases own with
    | nil => simp [steps, stepsItems]
    | cons j others =>
      have := stepsItems_le ih (level + 1)
      simp only [steps, layout, List.length_append, List.length_cons]
      omega
  | obj own ih =>
    intro level
    cases own with
    | nil => simp [steps, stepsMembers]
    | cons m others =>
      have := stepsMembers_le ih (level + 1)
      simp only [steps, layout, List.length_append, List.length_cons]
      omega

end Reader

/-- The text of a value reads as that value. -/
theorem parse_pretty {want : Want} {depth : Nat} {j : Json}
    (hcovers : Reader.covers want j = true) (hdepth : j.depth ≤ depth) :
    parse want depth j.pretty = some j := by
  have hsteps := Reader.steps_le j 0
  have hread := Reader.value_layout j want 0 (2 * (j.layout 0).length + 2) depth [] hcovers hdepth
    (by omega) (.inl rfl)
  rw [List.append_nil] at hread
  rw [parse, pretty, String.toList_ofList, hread]
  rfl

end ScopedConfig.Json
