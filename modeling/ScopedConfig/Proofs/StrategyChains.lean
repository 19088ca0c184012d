import Mathlib.Data.List.DropRight
import ScopedConfig.Proofs.KeyedMerge
import ScopedConfig.Proofs.Literal

/-!
# Chains of values under a strategy

A strategy takes two values at a time, and the parent's may be what it made of many before. What it
makes of a whole chain follows from all the values at once, because every text that it writes is
read again as what it was written for.
-/

namespace ScopedConfig

namespace Text

/-! ## Trimmed text -/

theorem trimChars_of_noBlank {cs : List Char} (h : ∀ c ∈ cs, isBlank c = false) :
    trimChars cs = cs := by
  have hkeep (cs : List Char) (h : ∀ c ∈ cs, isBlank c = false) :
      cs.dropWhile isBlank = cs := by
    cases cs with
    | nil => rfl
    | cons c rest => rw [List.dropWhile_cons_of_neg (by simp [h c List.mem_cons_self])]
  rw [trimChars, hkeep cs h, hkeep cs.reverse fun c hc => h c (List.mem_reverse.1 hc),
    List.reverse_reverse]

theorem trimChars_trimChars (cs : List Char) : trimChars (trimChars cs) = trimChars cs := by
  have hcut (cs : List Char) :
      trimChars cs = (cs.dropWhile isBlank).rdropWhile isBlank := rfl
  have hstart : (trimChars cs).dropWhile isBlank = trimChars cs := by
    cases htrimmed : trimChars cs with
    | nil => rfl
    | cons c rest =>
      obtain ⟨after, hcs⟩ := List.rdropWhile_prefix isBlank (cs.dropWhile isBlank)
      rw [← hcut, htrimmed] at hcs
      have hfirst := List.head?_dropWhile_not isBlank cs
      rw [← hcs] at hfirst
      rw [List.dropWhile_cons_of_neg]
      simpa using hfirst
  rw [hcut (trimChars cs), hstart, hcut cs, List.rdropWhile_idempotent]

theorem mem_of_mem_trimChars {c : Char} {cs : List Char} (h : c ∈ trimChars cs) : c ∈ cs := by
  have hstart := (List.dropWhile_sublist isBlank).subset (List.mem_reverse.1 h)
  exact (List.dropWhile_sublist isBlank).subset (List.mem_reverse.1 hstart)

theorem notMem_of_mem_splitOn {sep : Char} {cs piece : List Char} (h : piece ∈ cs.splitOn sep) :
    sep ∉ piece := by
  induction cs generalizing piece with
  | nil =>
    rw [List.splitOn_nil, List.mem_singleton] at h
    simp [h]
  | cons c rest ih =>
    rw [List.splitOn_cons_eq_if_modifyHead] at h
    split at h
    case isTrue hsep =>
      rcases List.mem_cons.1 h with rfl | h
      · simp
      · exact ih h
    case isFalse hsep =>
      cases hpieces : rest.splitOn sep with
      | nil => exact absurd hpieces (List.splitOn_ne_nil sep rest)
      | cons first others =>
        rw [hpieces, List.modifyHead_cons] at h
        rcases List.mem_cons.1 h with rfl | h
        · have hfirst := ih (hpieces ▸ List.mem_cons_self)
          rw [List.mem_cons, not_or]
          exact ⟨fun he => hsep (by simp [he]), hfirst⟩
        · exact ih (hpieces ▸ List.mem_cons_of_mem first h)

/-! ## Written numbers -/

theorem isBlank_of_isDigit {c : Char} (h : c.isDigit = true) : isBlank c = false := by
  have hlow : '0'.toNat ≤ c.toNat := (Json.Literal.range_of_isDigit h).1
  have hhigh : c.toNat ≤ '9'.toNat := (Json.Literal.range_of_isDigit h).2
  have hzero : '0'.toNat = 48 := rfl
  have hnine : '9'.toNat = 57 := rfl
  simp [isBlank]
  omega

theorem valueOf_toDigits (n : Nat) : valueOf 10 (Nat.toDigits 10 n) = n := by
  have hsame : valueOf 10 (Nat.toDigits 10 n) = Nat.ofDigitChars 10 (Nat.toDigits 10 n) 0 := by
    refine List.foldl_ext _ _ 0 fun value c hc => ?_
    have hdigit := Nat.isDigit_of_mem_toDigits (by decide) (by decide) hc
    rw [Json.Literal.digit?_of_isDigit hdigit, Option.getD_some, Nat.mul_comm]
  rw [hsame, Nat.ofDigitChars_toDigits (by decide) (by decide)]

theorem trimChars_toString (i : Int) : trimChars (toString i).toList = (toString i).toList := by
  refine trimChars_of_noBlank fun c hc => ?_
  rw [Json.Literal.toList_toString_int, List.mem_append] at hc
  rcases hc with hsign | hdigit
  · split at hsign
    · rw [List.mem_singleton.1 hsign]
      decide
    · cases hsign
  · exact isBlank_of_isDigit (Nat.isDigit_of_mem_toDigits (by decide) (by decide) hdigit)

theorem readInt64?_toString {i : Int} (h : fitsInt64 i = true) :
    readInt64? (toString i).toList = some i := by
  rw [Json.Literal.toList_toString_int]
  generalize hn : i.natAbs = n
  have hdigit : ∀ c ∈ Nat.toDigits 10 n, c.isDigit = true :=
    fun c hc => Nat.isDigit_of_mem_toDigits (by decide) (by decide) hc
  have hall : (Nat.toDigits 10 n).all (isDigitOf 10) = true :=
    List.all_eq_true.2 fun c hc => Json.Literal.isDigitOf_of_isDigit (hdigit c hc)
  have hvalue := valueOf_toDigits n
  by_cases hneg : i < 0
  · have hsign : -(n : Int) = i := by omega
    simp [hneg, readInt64?, hall, hvalue, hsign, h]
  · have hsign : (n : Int) = i := by omega
    cases hdigits : Nat.toDigits 10 n with
    | nil => exact absurd hdigits Nat.toDigits_ne_nil
    | cons c rest =>
      have hfirst := hdigit c (by simp [hdigits])
      have hminus : c ≠ '-' := by
        rintro rfl
        exact absurd hfirst (by decide)
      have hplus : c ≠ '+' := by
        rintro rfl
        exact absurd hfirst (by decide)
      rw [hdigits] at hall hvalue
      simp [hneg, readInt64?, hminus, hplus, hall, hvalue, hsign, h]

end Text

namespace Strategy

/-! ## The last value -/

/-- The last of the values that are there. -/
def lastPresent (values : List (Option String)) : Option String := (values.filterMap id).getLast?

theorem lastPresent_concat (values : List (Option String)) (last : Option String) :
    lastPresent (values ++ [last]) = last.or (lastPresent values) := by
  cases last <;> simp [lastPresent]

/-! ## Numbers -/

/-- The values that are whole numbers. -/
def numbers (values : List (Option String)) : List Int := values.filterMap readInt?

/-- What is chosen of several numbers from the left. -/
def pickAll (pick : Int → Int → Int) : List Int → Option Int
  | [] => none
  | n :: rest => some (rest.foldl pick n)

/-- The value reads as the number that is selected. Without any numbers it is the last value that
is there. -/
def ReadsAs (select : List Int → Option Int) (values : List (Option String))
    (value : Option String) : Prop :=
  match select (numbers values) with
  | some n => readInt? value = some n
  | none => value = lastPresent values

theorem pickAll_max : pickAll max = List.max? := by
  funext ns
  cases ns <;> rfl

theorem pickAll_min : pickAll min = List.min? := by
  funext ns
  cases ns <;> rfl

theorem readInt?_toString {i : Int} (h : Text.fitsInt64 i = true) :
    readInt? (some (toString i)) = some i := by
  rw [readInt?, Option.bind_some, Text.trimChars_toString, Text.readInt64?_toString h]

theorem fits_of_readInt? {value : Option String} {i : Int} (h : readInt? value = some i) :
    Text.fitsInt64 i = true := by
  obtain ⟨text, rfl, htext⟩ := Option.bind_eq_some_iff.1 h
  exact (Option.filter_eq_some_iff.1 htext).2

theorem pickAll_numbers_concat (pick : Int → Int → Int) (values : List (Option String))
    (last : Option String) :
    pickAll pick (numbers (values ++ [last])) =
      Option.merge pick (pickAll pick (numbers values)) (readInt? last) := by
  have hnumbers : numbers (values ++ [last]) = numbers values ++ (readInt? last).toList := by
    rw [numbers, List.filterMap_append]
    cases h : readInt? last <;> simp [numbers, h]
  rw [hnumbers]
  cases readInt? last <;> cases numbers values <;> simp [pickAll]

section

variable {pick : Int → Int → Int} (hpick : ∀ m n, pick m n = m ∨ pick m n = n)
include hpick

theorem readInt?_pickInt (parent child : Option String) :
    readInt? (pickInt pick parent child) =
      Option.merge pick (readInt? parent) (readInt? child) := by
  unfold pickInt
  cases hparent : readInt? parent with
  | none =>
    cases hchild : readInt? child with
    | none => cases child <;> simp [hparent, hchild]
    | some n => simp [hchild]
  | some m =>
    cases hchild : readInt? child with
    | none => simp [hparent]
    | some n =>
      have hfits : Text.fitsInt64 (pick m n) = true := by
        rcases hpick m n with h | h <;> rw [h]
        · exact fits_of_readInt? hparent
        · exact fits_of_readInt? hchild
      exact readInt?_toString hfits

theorem readInt?_foldl_pickInt (first : Option String) (rest : List (Option String)) :
    readInt? (rest.foldl (pickInt pick) first) = pickAll pick (numbers (first :: rest)) := by
  induction rest using List.reverseRecOn with
  | nil => cases h : readInt? first <;> simp [numbers, pickAll, h]
  | append_singleton init last ih =>
    rw [List.foldl_concat, readInt?_pickInt hpick, ih, ← List.cons_append, pickAll_numbers_concat]

theorem foldl_pickInt_of_none {first : Option String} {rest : List (Option String)}
    (h : pickAll pick (numbers (first :: rest)) = none) :
    rest.foldl (pickInt pick) first = lastPresent (first :: rest) := by
  induction rest using List.reverseRecOn with
  | nil => cases first <;> rfl
  | append_singleton init last ih =>
    rw [← List.cons_append, pickAll_numbers_concat, Option.merge_eq_none_iff] at h
    obtain ⟨hinit, hlast⟩ := h
    have hread := readInt?_foldl_pickInt hpick first init
    rw [List.foldl_concat, ← List.cons_append, lastPresent_concat, ← ih hinit, pickInt, hread,
      hinit, hlast]

theorem foldl_pickInt (first : Option String) (rest : List (Option String)) :
    ReadsAs (pickAll pick) (first :: rest) (rest.foldl (pickInt pick) first) := by
  unfold ReadsAs
  split
  case h_1 n hn => rw [readInt?_foldl_pickInt hpick, hn]
  case h_2 hnone => exact foldl_pickInt_of_none hpick hnone

end

/-! ## Parts -/

/-- A text that is its own only part. -/
def IsPart (part : String) : Prop :=
  part ≠ "" ∧ ',' ∉ part.toList ∧ Text.trimChars part.toList = part.toList

/-- The parts joined by commas, or another value where there are none. -/
def joinOr (value : Option String) : List String → Option String
  | [] => value
  | distinct => some (Text.join ',' distinct)

/-- The distinct parts of all values in order of first appearance, joined by commas. Without any
parts it is the last value that is there. -/
def joined (values : List (Option String)) : Option String :=
  joinOr (lastPresent values) (values.flatMap parts).eraseDups

theorem isPart_of_mem_parts {value : Option String} {part : String} (h : part ∈ parts value) :
    IsPart part := by
  cases value with
  | none => cases h
  | some text =>
    obtain ⟨hmem, hfilled⟩ := List.mem_filter.1 h
    obtain ⟨piece, hpiece, rfl⟩ := List.mem_map.1 hmem
    refine ⟨by simpa using hfilled, fun hcomma => ?_, ?_⟩
    · rw [String.toList_ofList] at hcomma
      exact Text.notMem_of_mem_splitOn hpiece (Text.mem_of_mem_trimChars hcomma)
    · rw [String.toList_ofList, Text.trimChars_trimChars]

theorem parts_join {distinct : List String} (hne : distinct ≠ [])
    (h : ∀ p ∈ distinct, IsPart p) :
    parts (some (Text.join ',' distinct)) = distinct := by
  have hsplit : (Text.join ',' distinct).toList.splitOn ',' = distinct.map String.toList := by
    rw [Text.join, String.toList_ofList, List.splitOn_intercalate ',' _ (by simpa using hne)]
    exact List.forall_mem_map.2 fun p hp => (h p hp).2.1
  have hpieces : (distinct.map String.toList).map (fun p => String.ofList (Text.trimChars p)) =
      distinct := by
    rw [List.map_map]
    refine (List.map_congr_left fun p hp => ?_).trans (List.map_id distinct)
    rw [Function.comp_apply, (h p hp).2.2, String.ofList_toList, id]
  rw [parts, hsplit, hpieces]
  exact List.filter_eq_self.2 fun p hp => by simpa using (h p hp).1

theorem addNew_eq (seen new : List String) :
    addNew seen.eraseDups new = (seen ++ new).eraseDups := by
  induction new generalizing seen with
  | nil => rw [List.append_nil]; rfl
  | cons p rest ih =>
    have hstep : (if seen.eraseDups.contains p then seen.eraseDups else seen.eraseDups ++ [p]) =
        (seen ++ [p]).eraseDups := by
      rw [Keyed.eraseDups_snoc]
      simp
    rw [addNew, List.foldl_cons, hstep]
    exact (ih (seen ++ [p])).trans (by simp)

theorem eraseDups_append_again (seen new : List String) :
    (seen.eraseDups ++ new).eraseDups = (seen ++ new).eraseDups := by
  rw [← addNew_eq, Keyed.eraseDups_of_nodup (Keyed.nodup_eraseDups seen), addNew_eq]

theorem concat_eq (parent child : Option String) :
    concat parent child =
      joinOr (child.or parent) (parts parent ++ parts child).eraseDups := by
  have hfirst := addNew_eq [] (parts parent)
  rw [List.eraseDups_nil, List.nil_append] at hfirst
  rw [← addNew_eq, ← hfirst]
  rfl

theorem parts_lastPresent {values : List (Option String)} (h : values.flatMap parts = []) :
    parts (lastPresent values) = [] := by
  cases hlast : lastPresent values with
  | none => rfl
  | some text =>
    have hmem : some text ∈ values := by
      simpa using List.mem_of_getLast? hlast
    exact List.flatMap_eq_nil_iff.1 h _ hmem

theorem eraseDups_eq_nil {keys : List String} : keys.eraseDups = [] ↔ keys = [] := by
  cases keys <;> simp [List.eraseDups_cons]

theorem parts_joined (values : List (Option String)) :
    parts (joined values) = (values.flatMap parts).eraseDups := by
  have hall : ∀ p ∈ (values.flatMap parts).eraseDups, IsPart p := by
    intro p hp
    obtain ⟨value, -, hpart⟩ := List.mem_flatMap.1 (List.mem_eraseDups.1 hp)
    exact isPart_of_mem_parts hpart
  unfold joined
  cases hdistinct : (values.flatMap parts).eraseDups with
  | nil => exact parts_lastPresent (eraseDups_eq_nil.1 hdistinct)
  | cons p others =>
    rw [hdistinct] at hall
    exact parts_join (List.cons_ne_nil p others) hall

theorem concat_joined (values : List (Option String)) (last : Option String) :
    concat (joined values) last = joined (values ++ [last]) := by
  have hparts : (parts (joined values) ++ parts last).eraseDups =
      ((values ++ [last]).flatMap parts).eraseDups := by
    rw [parts_joined, eraseDups_append_again]
    simp
  rw [concat_eq, hparts]
  unfold joined
  cases hdistinct : ((values ++ [last]).flatMap parts).eraseDups with
  | nil =>
    have hvalues : values.flatMap parts = [] := by
      have hboth := eraseDups_eq_nil.1 hdistinct
      rw [List.flatMap_append] at hboth
      exact (List.append_eq_nil_iff.1 hboth).1
    rw [hvalues]
    exact (lastPresent_concat values last).symm
  | cons p others => rfl

theorem foldl_concat (first second : Option String) (rest : List (Option String)) :
    (second :: rest).foldl concat first = joined (first :: second :: rest) := by
  induction rest using List.reverseRecOn with
  | nil =>
    have hlast : lastPresent [first, second] = second.or first :=
      lastPresent_concat [first] second |>.trans (by cases first <;> rfl)
    have hparts : [first, second].flatMap parts = parts first ++ parts second := by simp
    rw [List.foldl_cons, List.foldl_nil, concat_eq, joined, hparts, hlast]
  | append_singleton init last ih =>
    rw [← List.cons_append, List.foldl_concat, ih, concat_joined, List.cons_append,
      List.cons_append]

example : [none, some " b,,a ", some "a , c"].foldl concat (some "a,b") = some "a,b,c" := by
  decide +kernel

/-! ## Values that are not blank -/

/-- Text that has more than blanks. -/
def isFilled : Option String → Bool
  | none => false
  | some text => !(Text.trimChars text.toList).isEmpty

/-- The last value that is not blank, or the first one of all. -/
def lastFilled (first : Option String) (rest : List (Option String)) : Option String :=
  (rest.filter isFilled).getLast?.getD first

theorem foldl_nonEmptyChild (first : Option String) (rest : List (Option String)) :
    rest.foldl nonEmptyChild first = lastFilled first rest := by
  induction rest using List.reverseRecOn with
  | nil => rfl
  | append_singleton init last ih =>
    have hstep : nonEmptyChild (lastFilled first init) last =
        if isFilled last then last else lastFilled first init := by
      cases last with
      | none => rfl
      | some text =>
        cases h : (Text.trimChars text.toList).isEmpty <;> simp [nonEmptyChild, isFilled, h]
    rw [List.foldl_concat, ih, hstep, lastFilled, lastFilled, List.filter_append]
    split
    case isTrue h => simp [h]
    case isFalse h => simp [h]

end Strategy

namespace Merge

open Schema

/-- Single values that are merged one after another come to what the strategy makes of them. -/
theorem mergeText_chain {rules : Rules} {name : String} {strategy : Strategy}
    (hfind : rules.strategies.find? name = some strategy) (place : String) (parent : Node)
    (children : List (Info × Option String)) :
    ∃ node, children.foldlM (fun node child =>
        mergeText rules place (.strategy name) node child.1 child.2) parent = .ok node ∧
      node.text? = (children.map Prod.snd).foldl strategy parent.text? := by
  induction children generalizing parent with
  | nil => exact ⟨parent, rfl, rfl⟩
  | cons child rest ih =>
    have hstep : mergeText rules place (.strategy name) parent child.1 child.2 =
        .ok (.simple child.1 (strategy parent.text? child.2)) := by
      simp only [mergeText, hfind]
    rw [List.foldlM_cons, hstep]
    exact ih _

end Merge

namespace Strategies

open Strategy

/-- A chain of values taken together from the left by the strategy with that name. -/
def foldChain? (s : Strategies) (name : String) (first : Option String)
    (rest : List (Option String)) : Option (Option String) :=
  (s.find? name).map fun strategy => rest.foldl strategy first

/-- What the standard strategies make of two or more values. -/
theorem standard_foldChain (first second : Option String) (rest : List (Option String)) :
    (∃ value, standard.foldChain? "max-int" first (second :: rest) = some value ∧
      ReadsAs List.max? (first :: second :: rest) value) ∧
    (∃ value, standard.foldChain? "min-int" first (second :: rest) = some value ∧
      ReadsAs List.min? (first :: second :: rest) value) ∧
    standard.foldChain? "concat" first (second :: rest) =
      some (joined (first :: second :: rest)) ∧
    standard.foldChain? "non-empty-child" first (second :: rest) =
      some (lastFilled first (second :: rest)) := by
  have hmax : ReadsAs List.max? (first :: second :: rest)
      ((second :: rest).foldl maxInt first) := by
    rw [← pickAll_max]
    exact foldl_pickInt (fun m n => by omega) first (second :: rest)
  have hmin : ReadsAs List.min? (first :: second :: rest)
      ((second :: rest).foldl minInt first) := by
    rw [← pickAll_min]
    exact foldl_pickInt (fun m n => by omega) first (second :: rest)
  refine ⟨⟨_, rfl, hmax⟩, ⟨_, rfl, hmin⟩, ?_, ?_⟩
  · rw [← foldl_concat]
    rfl
  · rw [← foldl_nonEmptyChild]
    rfl

end Strategies

end ScopedConfig
