import ScopedConfig.Proofs.PathText

/-!
# The grammar of segments

A segment is written as a name, or as a name with pairs in brackets. The reader cuts at the first
`[`, the last `]`, the commas and the first `=` of each piece, and leaves every other use of these
characters to the check of tokens. It accepts the texts of the grammar and no others.
-/

namespace ScopedConfig

/-! ## Where a text is cut -/

namespace Text

variable {sep : Char} {cs : List Char}

theorem cutAt_eq_some {before after : List Char} :
    cutAt sep cs = some (before, after) ↔ sep ∉ before ∧ cs = before ++ sep :: after := by
  constructor
  · intro h
    induction cs generalizing before with
    | nil => cases h
    | cons c rest ih =>
      rw [cutAt] at h
      split at h
      case isTrue hc =>
        cases h
        exact ⟨List.not_mem_nil, by rw [hc]; rfl⟩
      case isFalse hc =>
        obtain ⟨⟨first, last⟩, hcut, he⟩ := Option.map_eq_some_iff.1 h
        cases he
        obtain ⟨hfirst, rfl⟩ := ih hcut
        exact ⟨List.not_mem_cons_of_ne_of_not_mem (Ne.symm hc) hfirst, rfl⟩
  · rintro ⟨h, rfl⟩
    exact cutAt_append h after

theorem dropLast?_eq_some {c : Char} {body : List Char} :
    dropLast? c cs = some body ↔ cs = body ++ [c] := by
  constructor
  · intro h
    rw [dropLast?] at h
    split at h
    case isTrue hlast =>
      cases h
      exact (List.dropLast_append_getLast? c hlast).symm
    case isFalse => cases h
  · rintro rfl
    exact dropLast?_concat c body

end Text

/-! ## Lists of pairs in order -/

namespace Keyed

variable {κ α : Type} [Ord κ] [Std.TransOrd κ] {l l' : List (κ × α)}

theorem ofList_perm [Std.LawfulEqOrd κ] [BEq κ] [LawfulBEq κ] (h : (l.map Prod.fst).Nodup) :
    (ofList l).Perm l := by
  have hfill : ofList l = fillFrom l [] := by simp [ofList, fillFrom]
  rw [hfill]
  exact fillFrom_perm sorted_nil h (by simp)

theorem eq_of_perm (h : Sorted l) (h' : Sorted l') (hperm : l.Perm l') : l = l' := by
  refine hperm.eq_of_pairwise (fun a b _ _ hab hba => ?_) h h'
  have hgt := Std.OrientedCmp.gt_of_lt hab
  rw [hba] at hgt
  cases hgt

end Keyed

namespace Scope

/-! ## Tokens -/

/-- A text that is not empty and holds none of the characters of the grammar. -/
def IsToken (text : String) : Prop :=
  text ≠ "" ∧ ∀ c ∈ text.toList, c ∉ ['/', '[', ']', '=', ',']

theorem isReserved_iff {c : Char} : isReserved c = true ↔ c ∈ ['/', '[', ']', '=', ','] := by
  simp [isReserved, or_assoc]

theorem isToken_iff {role : Role} {token : String} :
    IsToken token ↔ tokenFault? role token = none := by
  rw [tokenFault?_eq_none, IsToken, ne_eq, ne_eq, String.toList_eq_nil_iff]
  simp only [← isReserved_iff, Bool.not_eq_true]

instance (text : String) : Decidable (IsToken text) :=
  decidable_of_iff (tokenFault? .scopeName text = none) isToken_iff.symm

theorem IsToken.notMem {token : String} (h : IsToken token) {c : Char}
    (hc : c ∈ ['/', '[', ']', '=', ',']) : c ∉ token.toList := fun hmem => h.2 c hmem hc

namespace Segment

variable {s : Segment} {whole : String}

theorem fault?_iff_tokens :
    s.fault? = none ↔
      IsToken s.name ∧ ∀ e ∈ s.properties, IsToken e.1 ∧ IsToken e.2 := by
  rw [fault?_eq_none, ← isToken_iff]
  simp only [← isToken_iff]

/-! ## The grammar -/

/-- The text writes the segment: its name alone, or its name and its pairs in brackets, in any order
and with empty pieces anywhere between the commas. -/
inductive Written (whole : String) (s : Segment) : Prop where
  | bare (hname : IsToken s.name) (hproperties : s.properties = []) (hwhole : whole = s.name)
  | listed (pieces : List (List Char)) (pairs : List (String × String)) (hname : IsToken s.name)
    (hpairs : ∀ e ∈ pairs, IsToken e.1 ∧ IsToken e.2) (hkeys : (pairs.map Prod.fst).Nodup)
    (hpieces : (pieces.filter fun piece => !piece.isEmpty) =
      pairs.map fun e => (e.1 ++ "=" ++ e.2).toList)
    (hproperties : s.properties.Perm pairs)
    (hwhole : whole.toList = s.name.toList ++ '[' :: ([','].intercalate pieces ++ [']']))

theorem pieces_of_readPairs {pieces : List (List Char)} {read out : List (String × String)}
    (hnodup : (read.map Prod.fst).Nodup) (h : readPairs whole pieces read = .ok out) :
    ∃ pairs, out = read ++ pairs ∧ pieces = (pairs.map fun e => (pairText e).toList) ∧
      (out.map Prod.fst).Nodup := by
  induction pieces generalizing read with
  | nil =>
    cases h
    exact ⟨[], by simp, rfl, hnodup⟩
  | cons piece rest ih =>
    rw [readPairs] at h
    split at h
    case h_1 => cases h
    case h_2 k v hcut =>
      simp only at h
      split at h
      case isTrue => cases h
      case isFalse hnew =>
        have hnew : String.ofList k ∉ read.map Prod.fst := by
          rwa [Keyed.lookup_isSome_iff] at hnew
        have hnodup' : ((read ++ [(String.ofList k, String.ofList v)]).map Prod.fst).Nodup := by
          rw [List.map_append, List.nodup_append]
          refine ⟨hnodup, by simp, fun a ha b hb hab => hnew ?_⟩
          obtain rfl : b = String.ofList k := by simpa using hb
          rwa [← hab]
        obtain ⟨pairs, hout, hrest, hkeys⟩ := ih hnodup' h
        refine ⟨(String.ofList k, String.ofList v) :: pairs, by simp [hout], ?_, hkeys⟩
        rw [(Text.cutAt_eq_some.1 hcut).2, hrest]
        simp [pairText]

theorem written_of_parse (h : parse whole = .ok s) : Written whole s := by
  rw [parse] at h
  split at h
  case h_1 hcut =>
    obtain ⟨hlegal, rfl⟩ := checked_eq_ok.1 h
    exact .bare (fault?_iff_tokens.1 hlegal).1 rfl rfl
  case h_2 name rest hcut =>
    obtain ⟨-, hwhole⟩ := Text.cutAt_eq_some.1 hcut
    split at h
    case h_1 => cases h
    case h_2 body hbody =>
      obtain ⟨pairs, hread, hchecked⟩ := Except.bind_eq_ok.1 h
      obtain ⟨hlegal, rfl⟩ := checked_eq_ok.1 hchecked
      obtain ⟨pairs, rfl, hpieces, hkeys⟩ := pieces_of_readPairs (by simp) hread
      have hperm : (Keyed.ofList pairs).Perm pairs := Keyed.ofList_perm hkeys
      obtain ⟨hname, htokens⟩ := fault?_iff_tokens.1 hlegal
      refine .listed (body.splitOn ',') pairs hname (fun e he => ?_) hkeys hpieces hperm ?_
      · exact htokens e (hperm.mem_iff.2 he)
      · rw [List.intercalate_splitOn, ← Text.dropLast?_eq_some.1 hbody, hwhole]
        simp [ofPairs]

theorem notMem_of_pieces {c : Char} (hc : c ∈ ['/', '[', ']', ',']) {pieces : List (List Char)}
    {pairs : List (String × String)} (hpairs : ∀ e ∈ pairs, IsToken e.1 ∧ IsToken e.2)
    (hpieces : (pieces.filter fun piece => !piece.isEmpty) =
      pairs.map fun e => (pairText e).toList) : ∀ piece ∈ pieces, c ∉ piece := by
  intro piece hpiece hmem
  have hfilled : piece ∈ pieces.filter fun piece => !piece.isEmpty := by
    refine List.mem_filter.2 ⟨hpiece, ?_⟩
    cases piece with
    | nil => cases hmem
    | cons => rfl
  rw [hpieces] at hfilled
  obtain ⟨e, he, rfl⟩ := List.mem_map.1 hfilled
  have hreserved : c ∈ ['/', '[', ']', '=', ','] := by
    simp only [List.mem_cons, List.not_mem_nil, or_false] at hc ⊢
    rcases hc with rfl | rfl | rfl | rfl <;> simp
  have hsign : c ≠ '=' := by
    rintro rfl
    exact absurd hc (by decide)
  have hkey := (hpairs e he).1.notMem hreserved
  have hvalue := (hpairs e he).2.notMem hreserved
  simp [pairText, hkey, hvalue, hsign] at hmem

theorem parse_of_written (h : Written whole s) : parse whole = .ok s := by
  cases h with
  | bare hname hproperties hwhole =>
    have hs : named s.name = s := ext rfl hproperties.symm
    rw [hwhole, parse_name (hname.notMem (by decide)), hs]
    exact checked_eq_ok.2 ⟨fault?_iff_tokens.2 ⟨hname, by simp [hproperties]⟩, rfl⟩
  | listed pieces pairs hname hpairs hkeys hpieces hproperties hwhole =>
    have hcommas : ∀ piece ∈ pieces, ',' ∉ piece := notMem_of_pieces (by decide) hpairs hpieces
    have hs : ofPairs s.name pairs = s := by
      refine ext rfl (Keyed.eq_of_perm (Keyed.sorted_ofList pairs) s.sorted ?_)
      exact (Keyed.ofList_perm hkeys).trans hproperties.symm
    rw [parse_listed (hname.notMem (by decide)) hcommas hpieces
      (fun e he => (hpairs e he).1.notMem (by decide)) hkeys hwhole, hs]
    refine checked_eq_ok.2 ⟨fault?_iff_tokens.2 ⟨hname, fun e he => ?_⟩, rfl⟩
    exact hpairs e (hproperties.mem_iff.1 he)

/-- The reader accepts the texts of the grammar and no others, and each as the segment that it
writes. So what is read is legal, and a legal segment is read from its own text. -/
theorem parse_accepts_grammar :
    (∀ whole s, parse whole = .ok s ↔ Written whole s) ∧
      (∀ whole s, parse whole = .ok s → s.fault? = none) ∧
      ∀ s : Segment, s.fault? = none → parse s.text = .ok s := by
  refine ⟨fun whole s => ⟨written_of_parse, parse_of_written⟩, fun whole s h => ?_, fun s h =>
    parse_text h⟩
  cases written_of_parse h with
  | bare hname hproperties => exact fault?_iff_tokens.2 ⟨hname, by simp [hproperties]⟩
  | listed pieces pairs hname hpairs _ _ hproperties =>
    exact fault?_iff_tokens.2 ⟨hname, fun e he => hpairs e (hproperties.mem_iff.1 he)⟩

end Segment

end Scope

namespace Sample

open Scope

def user : Segment := .ofPairs "user" [("name", "alice"), ("team", "core")]

/-- The pairs may come in another order than that of their keys, with empty pieces between them. -/
theorem user_read :
    Segment.Written "user[,team=core,,name=alice]" user ∧
      Segment.parse "user[,team=core,,name=alice]" = .ok user ∧ user.fault? = none ∧
      Segment.parse user.text = .ok user := by
  obtain ⟨hgrammar, hlegal, hread⟩ := Segment.parse_accepts_grammar
  have hwritten : Segment.Written "user[,team=core,,name=alice]" user :=
    .listed [[], "team=core".toList, [], "name=alice".toList] [("team", "core"), ("name", "alice")]
      (by decide) (by decide) (by decide) (by decide) (by decide) (by decide)
  have hparse := (hgrammar _ _).2 hwritten
  exact ⟨hwritten, hparse, hlegal _ _ hparse, hread _ (hlegal _ _ hparse)⟩

end Sample

end ScopedConfig
