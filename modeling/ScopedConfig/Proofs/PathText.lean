import Mathlib.Data.List.DropRight
import ScopedConfig.Proofs.Except
import ScopedConfig.Proofs.Keyed
import ScopedConfig.Scope.Path

/-!
# Paths read from their texts

The text of a path reads back as the path, but for blanks at its very end. Only the name of a last
segment without properties can end there, and it loses them.
-/

namespace ScopedConfig

/-! ## Pieces of text -/

namespace Text

variable {sep : Char}

theorem cutAt_of_notMem {cs : List Char} (h : sep ∉ cs) : cutAt sep cs = none := by
  induction cs with
  | nil => rfl
  | cons c rest ih =>
    obtain ⟨hc, hrest⟩ := not_or.1 (List.mem_cons.not.1 h)
    rw [cutAt, if_neg (Ne.symm hc), ih hrest, Option.map_none]

theorem cutAt_append {before : List Char} (h : sep ∉ before) (after : List Char) :
    cutAt sep (before ++ sep :: after) = some (before, after) := by
  induction before with
  | nil => rw [List.nil_append, cutAt, if_pos rfl]
  | cons c rest ih =>
    obtain ⟨hc, hrest⟩ := not_or.1 (List.mem_cons.not.1 h)
    rw [List.cons_append, cutAt, if_neg (Ne.symm hc), ih hrest, Option.map_some]

theorem dropLast?_concat (c : Char) (cs : List Char) : dropLast? c (cs ++ [c]) = some cs := by
  simp [dropLast?]

theorem filledPieces_intercalate {pieces : List (List Char)} (hsep : ∀ p ∈ pieces, sep ∉ p) :
    filledPieces sep ([sep].intercalate pieces) = pieces.filter fun p => !p.isEmpty := by
  by_cases hnone : pieces = []
  · simp [hnone, filledPieces, List.intercalate]
  · rw [filledPieces, List.splitOn_intercalate sep hsep hnone]

theorem intercalate_concat (pieces : List (List Char)) (last : List Char) :
    [sep].intercalate (pieces ++ [last]) = pieces.flatMap (· ++ [sep]) ++ last := by
  induction pieces with
  | nil => simp [List.intercalate]
  | cons piece rest ih =>
    cases rest with
    | nil => simp [List.intercalate]
    | cons next rest =>
      simp only [List.intercalate, List.cons_append, List.intersperse_cons_cons,
        List.flatten_cons, List.flatMap_cons] at ih ⊢
      rw [ih]
      simp

theorem exists_intercalate_cons (sep : Char) (first : List Char) (rest : List (List Char)) :
    ∃ others, [sep].intercalate (first :: rest) = first ++ others := by
  cases rest with
  | nil => exact ⟨[], by simp [List.intercalate]⟩
  | cons next rest => exact ⟨_, by rw [List.intercalate, List.intersperse_cons_cons,
      List.flatten_cons]⟩

theorem notMem_intercalate {c : Char} (hsep : c ≠ sep) {pieces : List (List Char)}
    (h : ∀ p ∈ pieces, c ∉ p) : c ∉ [sep].intercalate pieces := by
  rcases List.eq_nil_or_concat' pieces with rfl | ⟨first, last, rfl⟩
  · simp [List.intercalate]
  · rw [intercalate_concat]
    simp_all

theorem rdropWhile_append {drop : Char → Bool} {before : List Char}
    (h : ∀ hne : before ≠ [], ¬drop (before.getLast hne)) (after : List Char) :
    (before ++ after).rdropWhile drop = before ++ after.rdropWhile drop := by
  induction after using List.reverseRecOn with
  | nil => simpa using h
  | append_singleton rest c ih =>
    rw [← List.append_assoc, List.rdropWhile_concat, List.rdropWhile_concat]
    split
    · exact ih
    · rw [List.append_assoc]

end Text

namespace Scope

/-! ## Segments -/

theorem tokenFault?_eq_none {role : Role} {token : String} :
    tokenFault? role token = none ↔
      token.toList ≠ [] ∧ ∀ c ∈ token.toList, isReserved c = false := by
  unfold tokenFault?
  cases token.toList with
  | nil => simp
  | cons c rest => simp

theorem notMem_of_legal {role : Role} {token : String} (h : tokenFault? role token = none)
    {c : Char} (hc : isReserved c = true) : c ∉ token.toList := by
  intro hmem
  have := (tokenFault?_eq_none.1 h).2 c hmem
  simp [hc] at this

namespace Segment

variable {s : Segment}

theorem fault?_eq_none :
    s.fault? = none ↔ tokenFault? .scopeName s.name = none ∧
      ∀ e ∈ s.properties, tokenFault? .propertyKey e.1 = none ∧
        tokenFault? .propertyValue e.2 = none := by
  simp [fault?, List.findSome?_eq_none_iff]

theorem ext {t : Segment} (hname : s.name = t.name) (hproperties : s.properties = t.properties) :
    s = t := by
  cases s
  cases t
  cases hname
  cases hproperties
  rfl

theorem ofPairs_self (s : Segment) : ofPairs s.name s.properties = s :=
  ext rfl (Keyed.ofList_of_sorted s.sorted)

theorem checked_eq_ok {t : Segment} : checked s = .ok t ↔ s.fault? = none ∧ s = t := by
  unfold checked
  cases s.fault? <;> simp

theorem readPairs_pairText (whole : String) (read : List (String × String))
    {pairs : List (String × String)}
    (hkeys : ∀ e ∈ pairs, '=' ∉ e.1.toList) (hnodup : ((read ++ pairs).map Prod.fst).Nodup) :
    readPairs whole (pairs.map fun e => (pairText e).toList) read = .ok (read ++ pairs) := by
  induction pairs generalizing read with
  | nil => simp [readPairs]
  | cons e rest ih =>
    obtain ⟨hfirst, hrest⟩ := List.forall_mem_cons.1 hkeys
    have hcut : Text.cutAt '=' (pairText e).toList = some (e.1.toList, e.2.toList) := by
      simpa [pairText] using Text.cutAt_append hfirst e.2.toList
    have hnew : e.1 ∉ read.map Prod.fst := by
      rw [List.map_append, List.nodup_append] at hnodup
      exact fun hmem => hnodup.2.2 _ hmem _ List.mem_cons_self rfl
    have hnone : (read.lookup e.1).isSome = false := by
      rw [← Bool.not_eq_true, Keyed.lookup_isSome_iff]
      exact hnew
    simp only [List.map_cons, readPairs, hcut, String.ofList_toList, hnone]
    rw [show (e.1, e.2) = e from rfl, if_neg (by simp), ih _ hrest (by simpa using hnodup)]
    simp

theorem parse_name {name : String} (h : '[' ∉ name.toList) : parse name = checked (named name) := by
  rw [parse, Text.cutAt_of_notMem h]

theorem text_of_properties (h : s.properties ≠ []) :
    s.text.toList = s.name.toList ++ '[' ::
      ([','].intercalate (s.properties.map fun e => (pairText e).toList) ++ [']']) := by
  simp [text, h, Text.join, Function.comp_def]

theorem parse_listed {whole name : String} {pieces : List (List Char)}
    {pairs : List (String × String)} (hname : '[' ∉ name.toList)
    (hcommas : ∀ piece ∈ pieces, ',' ∉ piece)
    (hpieces : (pieces.filter fun piece => !piece.isEmpty) =
      pairs.map fun e => (pairText e).toList)
    (hsigns : ∀ e ∈ pairs, '=' ∉ e.1.toList) (hkeys : (pairs.map Prod.fst).Nodup)
    (hwhole : whole.toList = name.toList ++ '[' :: ([','].intercalate pieces ++ [']'])) :
    parse whole = checked (ofPairs name pairs) := by
  have hbody := (Text.filledPieces_intercalate hcommas).trans hpieces
  have hread := readPairs_pairText whole [] hsigns hkeys
  rw [parse, hwhole, Text.cutAt_append hname]
  simp only [Text.dropLast?_concat, hbody, hread, List.nil_append, String.ofList_toList, bind,
    Except.bind]

/-- A legal segment is read back from its text. -/
theorem parse_text (h : s.fault? = none) : parse s.text = .ok s := by
  obtain ⟨hname, hpairs⟩ := fault?_eq_none.1 h
  have hopen : '[' ∉ s.name.toList := notMem_of_legal hname rfl
  by_cases hnone : s.properties = []
  · have hs : named s.name = s := ext rfl hnone.symm
    have htext : s.text = s.name := by simp [text, hnone]
    rw [htext, parse_name hopen, hs]
    exact checked_eq_ok.2 ⟨h, rfl⟩
  · have hcommas : ∀ piece ∈ s.properties.map fun e => (pairText e).toList, ',' ∉ piece := by
      intro piece hpiece
      obtain ⟨e, he, rfl⟩ := List.mem_map.1 hpiece
      have hkey := notMem_of_legal (hpairs e he).1 (c := ',') rfl
      have hvalue := notMem_of_legal (hpairs e he).2 (c := ',') rfl
      simp [pairText, hkey, hvalue]
    have hfilled : ((s.properties.map fun e => (pairText e).toList).filter
        fun piece => !piece.isEmpty) = s.properties.map fun e => (pairText e).toList := by
      rw [List.filter_eq_self, List.forall_mem_map]
      simp [pairText]
    rw [parse_listed hopen hcommas hfilled (fun e he => notMem_of_legal (hpairs e he).1 rfl)
      (Keyed.nodup_of_sorted s.sorted) (text_of_properties hnone), ofPairs_self]
    exact checked_eq_ok.2 ⟨h, rfl⟩

theorem slash_notMem_text (h : s.fault? = none) : '/' ∉ s.text.toList := by
  obtain ⟨hname, hpairs⟩ := fault?_eq_none.1 h
  have hslash : '/' ∉ s.name.toList := notMem_of_legal hname rfl
  by_cases hnone : s.properties = []
  · simpa [text, hnone] using hslash
  · rw [text_of_properties hnone]
    have hbody : '/' ∉ [','].intercalate (s.properties.map fun e => (pairText e).toList) := by
      refine Text.notMem_intercalate (by decide) fun piece hpiece => ?_
      obtain ⟨e, he, rfl⟩ := List.mem_map.1 hpiece
      have hkey := notMem_of_legal (hpairs e he).1 (c := '/') rfl
      have hvalue := notMem_of_legal (hpairs e he).2 (c := '/') rfl
      simp [pairText, hkey, hvalue]
    simp [hslash, hbody]

/-- The segment as it reads where blanks at the end of its text are lost. -/
def trimmed (s : Segment) : Segment :=
  if s.properties.isEmpty then named (String.ofList (s.name.toList.rdropWhile Text.isBlank)) else s

theorem parse_trimmed (h : s.fault? = none) :
    parse (String.ofList (s.text.toList.rdropWhile Text.isBlank)) = checked s.trimmed := by
  by_cases hnone : s.properties = []
  · have hopen : '[' ∉ s.name.toList := notMem_of_legal (fault?_eq_none.1 h).1 rfl
    have hcut : '[' ∉ s.name.toList.rdropWhile Text.isBlank := fun hmem =>
      hopen ((List.rdropWhile_prefix Text.isBlank _).subset hmem)
    simp only [text, trimmed, hnone, List.isEmpty_nil, if_true]
    exact parse_name (by simpa using hcut)
  · have hend : s.text.toList.rdropWhile Text.isBlank = s.text.toList := by
      rw [text_of_properties hnone, List.rdropWhile_eq_self_iff]
      simp
      decide
    rw [hend, String.ofList_toList, parse_text h, trimmed, if_neg (by simpa using hnone)]
    exact (checked_eq_ok.2 ⟨h, rfl⟩).symm

theorem trimmed_eq_self_iff :
    s.trimmed = s ↔ (s.properties = [] → ∀ c ∈ s.name.toList.getLast?, Text.isBlank c = false) := by
  by_cases hnone : s.properties = []
  · obtain ⟨name, properties, sorted⟩ := s
    cases hnone
    have hname : String.ofList (name.toList.rdropWhile Text.isBlank) = name ↔
        name.toList.rdropWhile Text.isBlank = name.toList :=
      ⟨fun h => String.toList_ofList.symm.trans (congrArg String.toList h),
        fun h => by rw [h, String.ofList_toList]⟩
    simp only [trimmed, named, List.isEmpty_nil, if_true, Segment.mk.injEq, and_true, hname,
      List.rdropWhile_eq_self_iff, forall_const]
    rcases List.eq_nil_or_concat' name.toList with h | ⟨first, last, h⟩ <;> simp [h]
  · simp [trimmed, hnone]

end Segment

/-! ## Paths -/

theorem fault?_of_chain {seen : List String} {l : List Segment} (h : chainFault? seen l = none) :
    ∀ s ∈ l, s.fault? = none := by
  induction l generalizing seen with
  | nil => simp
  | cons s rest ih =>
    simp only [chainFault?, Option.or_eq_none_iff] at h
    split at h
    · simp at h
    · exact List.forall_mem_cons.2 ⟨h.1, ih h.2⟩

namespace Path

theorem fault?_of_mem {p : Path} : ∀ s ∈ p.segments, s.fault? = none :=
  fault?_of_chain (Option.or_eq_none_iff.1 p.legal).2

theorem create_eq_ok {segments : List Segment} {p : Path} :
    create segments = .ok p ↔ segments = p.segments := by
  obtain ⟨own, legal⟩ := p
  constructor
  · intro h
    unfold create at h
    split at h <;> cases h
    rfl
  · rintro rfl
    unfold create
    split
    case h_1 fault hfault => simp [legal] at hfault
    case h_2 => rfl

theorem segments_eq (p : Path) : p.segments = p.segments.dropLast ++ [p.last] :=
  (List.dropLast_append_getLast p.segments_ne_nil).symm

theorem text_toList (p : Path) :
    p.text.toList = ['/'].intercalate (p.segments.map fun s => s.text.toList) := by
  simp [text, Text.join, Function.comp_def]

theorem dropWhile_text (p : Path) : p.text.toList.dropWhile Text.isBlank = p.text.toList := by
  -- A path begins with the name of its class scope, so not with a blank.
  have hlegal := (Option.or_eq_none_iff.1 p.legal).1
  rw [text_toList]
  cases hsegments : p.segments with
  | nil => exact absurd hsegments p.segments_ne_nil
  | cons first rest =>
    have hclass : first.name = "class" := by
      rw [hsegments] at hlegal
      by_contra hne
      simp [headFault?, hne] at hlegal
    obtain ⟨more, htext⟩ : ∃ more, first.text.toList = 'c' :: more := by
      cases hnone : first.properties.isEmpty with
      | true => exact ⟨['l', 'a', 's', 's'], by simp [Segment.text, hnone, hclass]⟩
      | false => exact ⟨_, by simp [Segment.text, hnone, hclass]; rfl⟩
    obtain ⟨others, hothers⟩ := Text.exists_intercalate_cons '/' first.text.toList
      (rest.map fun s => s.text.toList)
    rw [List.map_cons, hothers, htext]
    rfl

theorem trim_text (p : Path) :
    Text.trimChars p.text.toList =
      ['/'].intercalate ((p.segments.dropLast.map fun s => s.text.toList) ++
        [p.last.text.toList.rdropWhile Text.isBlank]) := by
  have hcut : Text.trimChars p.text.toList = p.text.toList.rdropWhile Text.isBlank := by
    rw [Text.trimChars, dropWhile_text]
    rfl
  -- Blanks at the end of a path's text belong to its last segment.
  rw [hcut, text_toList, segments_eq p, List.map_append, List.map_singleton,
    Text.intercalate_concat, Text.intercalate_concat, List.dropLast_concat,
    Text.rdropWhile_append]
  rcases List.eq_nil_or_concat' p.segments.dropLast with h | ⟨first, s, h⟩
  · simp [h]
  · simp [h]
    decide

theorem mapM_parse_text {segments : List Segment} (h : ∀ s ∈ segments, s.fault? = none) :
    (segments.map fun s => s.text.toList).mapM (fun piece => Segment.parse (String.ofList piece)) =
      .ok segments := by
  induction segments with
  | nil => rfl
  | cons s rest ih =>
    obtain ⟨hfirst, hrest⟩ := List.forall_mem_cons.1 h
    rw [List.map_cons, List.mapM_cons, String.ofList_toList, Segment.parse_text hfirst, ih hrest]
    rfl

theorem parse_text_eq (p : Path) :
    parse p.text =
      (Segment.checked p.last.trimmed).bind fun s => create (p.segments.dropLast ++ [s]) := by
  have hlegal := p.fault?_of_mem
  rw [segments_eq p, List.forall_mem_append] at hlegal
  obtain ⟨hfirst, hlast⟩ := hlegal
  have hlast := List.forall_mem_singleton.1 hlast
  have hpieces : ∀ piece ∈ (p.segments.dropLast.map fun s => s.text.toList) ++
      [p.last.text.toList.rdropWhile Text.isBlank], '/' ∉ piece := by
    rw [List.forall_mem_append, List.forall_mem_singleton, List.forall_mem_map]
    exact ⟨fun s hs => Segment.slash_notMem_text (hfirst s hs), fun hmem =>
      Segment.slash_notMem_text hlast ((List.rdropWhile_prefix Text.isBlank _).subset hmem)⟩
  rw [parse, trim_text, List.splitOn_intercalate '/' hpieces (by simp)]
  simp only [List.mapM_append, mapM_parse_text hfirst, List.mapM_cons, List.mapM_nil,
    Segment.parse_trimmed hlast]
  cases Segment.checked p.last.trimmed <;> rfl

theorem parse_text_eq_ok_iff (p : Path) : parse p.text = .ok p ↔ p.last.trimmed = p.last := by
  rw [parse_text_eq]
  constructor
  · intro h
    obtain ⟨s, hs, hcreate⟩ := Except.bind_eq_ok.1 h
    have hlast : [s] = [p.last] :=
      List.append_cancel_left ((create_eq_ok.1 hcreate).trans p.segments_eq)
    exact (Segment.checked_eq_ok.1 hs).2.trans (List.singleton_injective hlast)
  · intro h
    have hlegal := p.fault?_of_mem p.last (List.getLast_mem p.segments_ne_nil)
    rw [h, Segment.checked_eq_ok.2 ⟨hlegal, rfl⟩]
    exact create_eq_ok.2 p.segments_eq.symm

/-- A path is read back from its text unless its last segment has no properties and a name that ends
in a blank. -/
theorem text_read_back_iff (p : Path) :
    parse p.text = .ok p ↔
      (p.last.properties = [] → ∀ c ∈ p.last.name.toList.getLast?, Text.isBlank c = false) := by
  rw [parse_text_eq_ok_iff, Segment.trimmed_eq_self_iff]

end Path

end Scope

namespace Sample

open Scope

/-- A domain scope of a class. -/
def domainPath (name : String) : Except Fault Path :=
  (Path.forClass "App").bind fun p => p.append (.named name)

/-- A blank belongs to the name when the path is made, and is lost when its text is read. -/
theorem trailing_blank_is_lost :
    ∃ p q, domainPath "global " = .ok p ∧ domainPath "global" = .ok q ∧ Path.parse p.text = .ok q ∧
      Path.parse p.text ≠ .ok p := by
  refine ⟨⟨_, ?_⟩, ⟨_, ?_⟩, rfl, rfl, ?_, ?_⟩
  all_goals decide +kernel

end Sample

end ScopedConfig
