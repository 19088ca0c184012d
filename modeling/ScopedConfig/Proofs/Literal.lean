import Mathlib.Data.List.TakeDrop
import ScopedConfig.Json.Number

/-!
# Whole numbers in JSON text

The decimal digits of a whole number read as that number wherever the text stops or goes on with a
comma or a new line, if 64 bits hold it.
-/

namespace ScopedConfig.Json

namespace Literal

/-- Nothing that would go on with a number. -/
def Ends (rest : List Char) : Prop :=
  rest = [] ∨ ∃ others, rest = ',' :: others ∨ rest = '\n' :: others

theorem range_of_isDigit {c : Char} (h : c.isDigit = true) : '0' ≤ c ∧ c ≤ '9' := by
  simp only [Char.isDigit, Bool.and_eq_true, decide_eq_true_eq] at h
  exact h

theorem digit?_of_isDigit {c : Char} (h : c.isDigit = true) :
    Text.digit? c = some (c.toNat - '0'.toNat) := by
  simp [Text.digit?, range_of_isDigit h]

theorem isDigitOf_of_isDigit {c : Char} (h : c.isDigit = true) : Text.isDigitOf 10 c = true := by
  have hhigh : c.toNat ≤ '9'.toNat := (range_of_isDigit h).2
  have hnine : '9'.toNat = 57 := rfl
  have hzero : '0'.toNat = 48 := rfl
  simp only [Text.isDigitOf, digit?_of_isDigit h, decide_eq_true_eq]
  omega

theorem spanDigits_append {digits rest : List Char}
    (hdigits : ∀ c ∈ digits, c.isDigit = true) (hrest : Ends rest) :
    spanDigits (digits ++ rest) = (digits, rest) := by
  have hstop : rest.takeWhile (Text.isDigitOf 10) = [] ∧
      rest.dropWhile (Text.isDigitOf 10) = rest := by
    obtain rfl | ⟨others, rfl | rfl⟩ := hrest <;> constructor <;> rfl
  have hall : ∀ c ∈ digits, Text.isDigitOf 10 c = true :=
    fun c hc => isDigitOf_of_isDigit (hdigits c hc)
  rw [spanDigits, List.span_eq_takeWhile_dropWhile, List.takeWhile_append_of_pos hall,
    List.dropWhile_append_of_pos hall, hstop.1, hstop.2, List.append_nil]

theorem toDigits_head {n : Nat} {digits : List Char} (h : Nat.toDigits 10 n = '0' :: digits) :
    n = 0 := by
  induction n using Nat.strongRecOn generalizing digits with
  | ind n ih =>
    rw [Nat.toDigits_eq_if (by decide)] at h
    split at h
    case isTrue hsmall =>
      have hall : ∀ n < 10, Nat.digitChar n = '0' → n = 0 := by decide
      exact hall n hsmall (List.cons.inj h).1
    case isFalse hbig =>
      have hlead : ∃ others, Nat.toDigits 10 (n / 10) = '0' :: others := by
        cases hfirst : Nat.toDigits 10 (n / 10) with
        | nil => exact absurd hfirst Nat.toDigits_ne_nil
        | cons c others =>
          rw [hfirst] at h
          exact ⟨others, by rw [(List.cons.inj h).1]⟩
      obtain ⟨others, hothers⟩ := hlead
      have := ih (n / 10) (by omega) hothers
      omega

theorem readWhole?_toDigits (n : Nat) {rest : List Char} (hrest : Ends rest) :
    readWhole? (Nat.toDigits 10 n ++ rest) = some (Nat.toDigits 10 n, rest) := by
  have hall : ∀ c ∈ Nat.toDigits 10 n, c.isDigit = true :=
    fun c hc => Nat.isDigit_of_mem_toDigits (by decide) (by decide) hc
  have hspan := spanDigits_append hall hrest
  cases hdigits : Nat.toDigits 10 n with
  | nil => exact absurd hdigits Nat.toDigits_ne_nil
  | cons c digits =>
    by_cases hc : c = '0'
    · subst hc
      have hzero := toDigits_head hdigits
      subst hzero
      simp only [Nat.toDigits_zero, List.cons.injEq, true_and] at hdigits
      subst hdigits
      rfl
    · rw [hdigits] at hspan
      unfold readWhole?
      split
      case h_1 h => exact absurd (List.cons.inj h).1 hc
      case h_2 => rw [hspan]

theorem gather_digits {digits : List Char} (hdigits : ∀ c ∈ digits, c.isDigit = true) {word : Nat}
    (h : Nat.ofDigitChars 10 digits word ≤ greatestWord) :
    gather word digits = (Nat.ofDigitChars 10 digits word, []) := by
  have hgrows (cs : List Char) (w : Nat) : w ≤ Nat.ofDigitChars 10 cs w := by
    induction cs generalizing w with
    | nil => exact Nat.le_refl w
    | cons c cs ih =>
      have hrest := ih (10 * w + (c.toNat - '0'.toNat))
      simp only [Nat.ofDigitChars, List.foldl_cons] at hrest ⊢
      omega
  induction digits generalizing word with
  | nil => rfl
  | cons c digits ih =>
    rw [List.forall_mem_cons] at hdigits
    have hnext : word * 10 + (Text.digit? c).getD 0 = 10 * word + (c.toNat - '0'.toNat) := by
      rw [digit?_of_isDigit hdigits.1, Option.getD_some]
      omega
    have hfold : Nat.ofDigitChars 10 (c :: digits) word =
        Nat.ofDigitChars 10 digits (10 * word + (c.toNat - '0'.toNat)) := rfl
    rw [hfold] at h ⊢
    have hfits : 10 * word + (c.toNat - '0'.toNat) ≤ greatestWord := Nat.le_trans (hgrows _ _) h
    rw [gather, hnext]
    simp only [hfits, if_true]
    exact ih hdigits.2 h

/-- A whole number as it is written. -/
def ofInt (i : Int) : Literal := ⟨decide (i < 0), Nat.toDigits 10 i.natAbs, [], none⟩

theorem toList_toString_int (i : Int) :
    (toString i).toList = (if i < 0 then ['-'] else []) ++ Nat.toDigits 10 i.natAbs := by
  have hrepr : toString i = i.repr := rfl
  rw [hrepr, Int.repr_eq_if]
  split
  case isTrue hpos =>
    have hnat : i.toNat = i.natAbs := by omega
    rw [if_neg (by omega), Nat.repr_eq_ofList_toDigits, String.toList_ofList, hnat]
    rfl
  case isFalse hneg =>
    have hnat : (-i).toNat = i.natAbs := by omega
    rw [if_pos (by omega), Nat.repr_eq_ofList_toDigits, String.toList_append, hnat]
    simp

theorem readFraction?_ends {rest : List Char} (h : Ends rest) :
    readFraction? rest = some ([], rest) := by
  obtain rfl | ⟨others, rfl | rfl⟩ := h <;> rfl

theorem readExponent?_ends {rest : List Char} (h : Ends rest) :
    readExponent? rest = some (none, rest) := by
  obtain rfl | ⟨others, rfl | rfl⟩ := h <;> rfl

theorem read?_int (i : Int) {rest : List Char} (hrest : Ends rest) :
    read? ((toString i).toList ++ rest) = some (ofInt i, rest) := by
  have hwhole := readWhole?_toDigits i.natAbs hrest
  rw [toList_toString_int]
  by_cases hneg : i < 0
  · simp [read?, hneg, hwhole, readFraction?_ends hrest, readExponent?_ends hrest, ofInt]
  · cases hdigits : Nat.toDigits 10 i.natAbs with
    | nil => exact absurd hdigits Nat.toDigits_ne_nil
    | cons c digits =>
      have hc : c ≠ '-' := by
        rintro rfl
        have hdigit := Nat.isDigit_of_mem_toDigits (b := 10) (n := i.natAbs) (c := '-') (by decide)
          (by decide) (by simp [hdigits])
        simp [Char.isDigit] at hdigit
      rw [hdigits] at hwhole
      simp only [hneg, if_false, List.nil_append, List.cons_append] at hwhole ⊢
      unfold read?
      split
      case h_1 negative cs hsign =>
      obtain ⟨rfl, rfl⟩ : false = negative ∧ c :: (digits ++ rest) = cs := by
        split at hsign
        case h_1 h => exact absurd (List.cons.inj h).1 hc
        case h_2 => simpa using hsign
      simp [hwhole, readFraction?_ends hrest, readExponent?_ends hrest, ofInt, hneg, hdigits]

theorem value?_ofInt {i : Int} (h : Text.fitsInt64 i = true) :
    (ofInt i).value? = some (.int i) := by
  have hrange : Text.minInt64 ≤ i ∧ i ≤ Text.maxInt64 := by simpa [Text.fitsInt64] using h
  have hmin : Text.minInt64 = -9223372036854775808 := rfl
  have hmax : Text.maxInt64 = 9223372036854775807 := rfl
  have hgreatest : greatestWord = 18446744073709551615 := rfl
  have hword : Nat.ofDigitChars 10 (Nat.toDigits 10 i.natAbs) 0 = i.natAbs :=
    Nat.ofDigitChars_toDigits (by decide) (by decide)
  have hgather : gather 0 (Nat.toDigits 10 i.natAbs) = (i.natAbs, []) := by
    rw [gather_digits (fun c hc => Nat.isDigit_of_mem_toDigits (by decide) (by decide) hc), hword]
    omega
  have hsign : (if decide (i < 0) = true then -(i.natAbs : Int) else i.natAbs) = i := by
    split
    case isTrue hneg =>
      have := of_decide_eq_true hneg
      omega
    case isFalse hpos =>
      rw [decide_eq_true_eq] at hpos
      omega
  have hzero : (!(decide (i < 0) && i.natAbs == 0)) = true := by
    rw [Bool.not_eq_true', Bool.and_eq_false_iff, decide_eq_false_iff_not, beq_eq_false_iff_ne]
    omega
  simp only [value?, ofInt, hgather, hsign, hzero]
  simp [hrange.1]

end Literal

end ScopedConfig.Json
