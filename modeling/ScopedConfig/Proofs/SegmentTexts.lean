import ScopedConfig.Proofs.RegisteredChains

/-!
# Two texts for one segment

A domain scope is given as `name:key=value,...` for a registry to read, or as `name[key=value,...]`
at the end of the text of a path. Where the texts do not break out of their places, both name the
same path.
-/

namespace ScopedConfig

open ScopedConfig.Except

/-! ## Pieces of text -/

namespace Text

variable {sep : Char}

theorem splitOn_pair {before first second : List Char} (hfirst : sep ∉ first)
    (hsecond : sep ∉ second) :
    (before ++ sep :: (first ++ sep :: second)).splitOn sep =
      before.splitOn sep ++ [first, second] := by
  rw [List.splitOn_append_cons_self, List.splitOn_append_cons_self_of_not_mem hfirst,
    List.splitOn_eq_singleton hsecond]

theorem trimChars_of_ends {first last : Char} (hfirst : isBlank first = false)
    (hlast : isBlank last = false) (between : List Char) :
    trimChars (first :: (between ++ [last])) = first :: (between ++ [last]) := by
  simp [trimChars, hfirst, hlast]

end Text

namespace Scope

/-! ## Pairs in a list -/

/-- What stands before the first `=` of each piece that has one. -/
def writtenKeys (body : String) : List String :=
  (Text.filledPieces ',' body.toList).filterMap fun piece =>
    (Text.cutAt '=' piece).map fun pair => String.ofList pair.1

/-- The pieces are those of the pairs, each cut at its first `=`. -/
def WrittenPairs (body : String) (pairs : List (String × String)) : Prop :=
  Text.filledPieces ',' body.toList = (pairs.map fun e => (Segment.pairText e).toList) ∧
    ∀ e ∈ pairs, '=' ∉ e.1.toList

variable {body : String} {pairs : List (String × String)}

theorem cutAt_pairText {e : String × String} (h : '=' ∉ e.1.toList) :
    Text.cutAt '=' (Segment.pairText e).toList = some (e.1.toList, e.2.toList) := by
  simpa [Segment.pairText] using Text.cutAt_append h e.2.toList

theorem WrittenPairs.keys (h : WrittenPairs body pairs) :
    writtenKeys body = pairs.map Prod.fst := by
  obtain ⟨hpieces, hsigns⟩ := h
  rw [writtenKeys, hpieces]
  clear hpieces
  induction pairs with
  | nil => rfl
  | cons e rest ih =>
    obtain ⟨hfirst, hrest⟩ := List.forall_mem_cons.1 hsigns
    rw [List.map_cons, List.filterMap_cons, cutAt_pairText hfirst]
    simp [ih hrest]

theorem writtenPairs_single {key value : String} (hkey : '=' ∉ key.toList)
    (hcomma : ',' ∉ (key ++ "=" ++ value).toList) :
    WrittenPairs (key ++ "=" ++ value) pairs ↔ pairs = [(key, value)] := by
  have hfilled : Text.filledPieces ',' (key ++ "=" ++ value).toList =
      [(Segment.pairText (key, value)).toList] := by
    rw [Text.filledPieces, List.splitOn_eq_singleton hcomma]
    simp [Segment.pairText]
  rw [WrittenPairs, hfilled]
  constructor
  · rintro ⟨hpieces, hsigns⟩
    obtain ⟨e, rfl, htext⟩ := List.map_eq_singleton_iff.1 hpieces.symm
    have hcut := cutAt_pairText (hsigns e List.mem_cons_self)
    rw [htext, cutAt_pairText (e := (key, value)) hkey] at hcut
    obtain ⟨hfirst, hsecond⟩ := Prod.mk.inj (Option.some.inj hcut)
    rw [← Prod.ext (String.toList_inj.1 hfirst) (String.toList_inj.1 hsecond)]
  · rintro rfl
    exact ⟨rfl, List.forall_mem_singleton.2 hkey⟩

namespace Registry

variable {r : Registry} {name : String} {s : Segment}

theorem readChoices_eq_ok {whole : String} {pieces : List (List Char)} :
    readChoices whole pieces = .ok pairs ↔
      pieces = (pairs.map fun e => (Segment.pairText e).toList) ∧
        ∀ e ∈ pairs, '=' ∉ e.1.toList := by
  induction pieces generalizing pairs with
  | nil => cases pairs <;> simp [readChoices]
  | cons piece rest ih =>
    rw [readChoices]
    constructor
    · intro h
      split at h
      case h_1 => cases h
      case h_2 key value hcut =>
        obtain ⟨hkey, rfl⟩ := Text.cutAt_eq_some.1 hcut
        obtain ⟨others, hothers, h⟩ := bind_eq_ok.1 h
        obtain rfl := pure_eq_ok.1 h
        obtain ⟨rfl, hsigns⟩ := ih.1 hothers
        refine ⟨by simp [Segment.pairText], List.forall_mem_cons.2 ⟨by simpa using hkey, hsigns⟩⟩
    · rintro ⟨hpieces, hsigns⟩
      cases pairs with
      | nil => cases hpieces
      | cons e others =>
        obtain ⟨rfl, rfl⟩ := List.cons.inj hpieces
        obtain ⟨hfirst, hrest⟩ := List.forall_mem_cons.1 hsigns
        simp only [cutAt_pairText hfirst, String.ofList_toList]
        exact bind_eq_ok.2 ⟨others, ih.2 ⟨rfl, hrest⟩, rfl⟩

/-- The last of several pairs with one key counts, and tokens are not looked at. -/
theorem parseSegment_eq_ok (hcolon : ':' ∉ name.toList) :
    r.parseSegment (name ++ ":" ++ body) = .ok s ↔
      name ∈ r.names ∧ ∃ pairs, WrittenPairs body pairs ∧ s = .ofPairs name pairs := by
  have hcut : Text.cutAt ':' (name ++ ":" ++ body).toList = some (name.toList, body.toList) := by
    simpa using Text.cutAt_append hcolon body.toList
  unfold parseSegment
  simp only [hcut, Option.getD_some, String.ofList_toList]
  constructor
  · intro h
    obtain ⟨pairs, hread, h⟩ := bind_eq_ok.1 h
    by_cases hknown : name ∈ r.names
    · have hfound := find?_isSome.2 hknown
      rw [← Option.not_isNone, Bool.not_eq_true'] at hfound
      simp only [hfound, Bool.false_eq_true, if_false] at h
      exact ⟨hknown, pairs, readChoices_eq_ok.1 hread, (pure_eq_ok.1 h).symm⟩
    · have hmissing : (r.find? name).isNone = true := by
        rw [← Option.not_isSome, Bool.not_eq_true']
        exact Bool.eq_false_iff.2 (mt find?_isSome.1 hknown)
      rw [if_pos hmissing] at h
      cases h
  · rintro ⟨hknown, pairs, hpairs, rfl⟩
    have hfound := find?_isSome.2 hknown
    rw [← Option.not_isNone, Bool.not_eq_true'] at hfound
    refine bind_eq_ok.2 ⟨pairs, readChoices_eq_ok.2 hpairs, ?_⟩
    simp only [hfound, Bool.false_eq_true, if_false]
    rfl

end Registry

/-! ## Segments in brackets -/

namespace Segment

variable {name : String} {s : Segment}

theorem parse_bracketed :
    parse (name ++ "[" ++ body ++ "]") = .ok s ↔
      ∃ pairs, WrittenPairs body pairs ∧ (pairs.map Prod.fst).Nodup ∧ IsToken name ∧
        (∀ e ∈ pairs, IsToken e.1 ∧ IsToken e.2) ∧ s = .ofPairs name pairs := by
  constructor
  · intro h
    cases written_of_parse h with
    | bare hname _ hwhole =>
      have hopen := hname.notMem (c := '[') (by decide)
      rw [← hwhole] at hopen
      simp at hopen
    | listed pieces pairs hname hpairs hkeys hpieces hproperties hwhole =>
      have hinside : '[' ∉ [','].intercalate pieces ++ [']'] := by
        rw [List.mem_append, not_or]
        exact ⟨Text.notMem_intercalate (by decide) (notMem_of_pieces (by decide) hpairs hpieces),
          by decide⟩
      have htext : s.name.toList ++ '[' :: ([','].intercalate pieces ++ [']']) =
          name.toList ++ '[' :: (body.toList ++ [']']) := by
        rw [← hwhole]
        simp
      obtain ⟨hsame, -, hinner⟩ :=
        (List.append_cons_inj_of_notMem (hname.notMem (by decide)) hinside).1 htext
      obtain rfl : s.name = name := String.toList_inj.1 hsame
      have hbody := List.append_cancel_right hinner
      refine ⟨pairs, ⟨?_, fun e he => (hpairs e he).1.notMem (by decide)⟩, hkeys, hname, hpairs, ?_⟩
      · rw [← hbody, Text.filledPieces_intercalate (notMem_of_pieces (by decide) hpairs hpieces)]
        exact hpieces
      · refine ext rfl (Keyed.eq_of_perm s.sorted (Keyed.sorted_ofList pairs) ?_)
        exact hproperties.trans (Keyed.ofList_perm hkeys).symm
  · rintro ⟨pairs, ⟨hpieces, -⟩, hkeys, hname, hpairs, rfl⟩
    refine parse_of_written (.listed (body.toList.splitOn ',') pairs hname hpairs hkeys hpieces
      (Keyed.ofList_perm hkeys) ?_)
    rw [List.intercalate_splitOn]
    simp [ofPairs]

end Segment

/-! ## Paths -/

/-- The text of a path of a class with one domain scope. -/
def scopeText (className name body : String) : String :=
  "class[name=" ++ className ++ "]/default/" ++ name ++ "[" ++ body ++ "]"

variable {className name : String} {p : Path}

theorem pieces_scopeText (hname : '/' ∉ name.toList) (hbody : '/' ∉ body.toList) :
    (Text.trimChars (scopeText className name body).toList).splitOn '/' =
      ("class[name=" ++ className ++ "]").toList.splitOn '/' ++
        ["default".toList, (name ++ "[" ++ body ++ "]").toList] := by
  have hwhole : (scopeText className name body).toList =
      'c' :: (("lass[name=" ++ className ++ "]/default/" ++ name ++ "[" ++ body).toList ++
        [']']) := by
    unfold scopeText
    simp only [String.toList_append, List.append_assoc]
    rfl
  have hlast : '/' ∉ (name ++ "[" ++ body ++ "]").toList := by simp [hname, hbody]
  have hpieces : (("class[name=" ++ className ++ "]").toList ++ '/' :: ("default".toList ++
      '/' :: (name ++ "[" ++ body ++ "]").toList)).splitOn '/' =
        ("class[name=" ++ className ++ "]").toList.splitOn '/' ++
          ["default".toList, (name ++ "[" ++ body ++ "]").toList] :=
    Text.splitOn_pair (by decide) hlast
  rw [hwhole, Text.trimChars_of_ends (by decide) (by decide), ← hpieces]
  simp

theorem parse_classText (hclass : ',' ∉ className.toList) {s : Segment} :
    Segment.parse ("class[name=" ++ className ++ "]") = .ok s ↔
      IsToken className ∧ s = .withProperty "class" "name" className := by
  have htext : "class[name=" ++ className ++ "]" =
      "class" ++ "[" ++ ("name" ++ "=" ++ className) ++ "]" := by
    rw [← String.toList_inj]
    simp
  have hkey : '=' ∉ "name".toList := by decide
  have hcomma : ',' ∉ ("name" ++ "=" ++ className).toList := by simp [hclass]
  have hclassScope : IsToken "class" := by decide
  have hname : IsToken "name" := by decide
  rw [htext, Segment.parse_bracketed]
  simp only [writtenPairs_single hkey hcomma, exists_eq_left, List.forall_mem_singleton]
  constructor
  · rintro ⟨-, -, ⟨-, hvalue⟩, rfl⟩
    exact ⟨hvalue, rfl⟩
  · rintro ⟨hvalue, rfl⟩
    exact ⟨by simp, hclassScope, ⟨hname, hvalue⟩, rfl⟩

theorem mapM_parse_ending {pieces : List (List Char)} {last : String} {segments : List Segment} :
    (pieces ++ ["default".toList, last.toList]).mapM
        (fun piece => Segment.parse (String.ofList piece)) = .ok segments ↔
      ∃ firsts s, pieces.mapM (fun piece => Segment.parse (String.ofList piece)) = .ok firsts ∧
        Segment.parse last = .ok s ∧ segments = firsts ++ [.named "default", s] := by
  have hdefault : Segment.parse "default" = .ok (.named "default") := rfl
  simp only [List.mapM_append, List.mapM_cons, List.mapM_nil, String.ofList_toList, hdefault]
  cases pieces.mapM fun piece => Segment.parse (String.ofList piece) with
  | error e => simp [bind, Except.bind]
  | ok firsts =>
    cases Segment.parse last with
    | error e => simp [bind, Except.bind]
    | ok s => simp [bind, Except.bind, pure, Except.pure, eq_comm]

theorem not_wellFormed_moved {first second s : Segment} {more : List Segment} :
    ¬WellFormed (first :: second :: (more ++ [.named "default", s])) := by
  intro h
  have hdefault : second.name = "default" := h.defaultScope second rfl
  have hdistinct := h.distinct
  simp [hdefault, Segment.named] at hdistinct

theorem parse_scopeText (hclass : ',' ∉ className.toList) (hname : '/' ∉ name.toList)
    (hbody : '/' ∉ body.toList) :
    Path.parse (scopeText className name body) = .ok p ↔
      IsToken className ∧ ∃ s, Segment.parse (name ++ "[" ++ body ++ "]") = .ok s ∧
        p.segments = Path.start className ++ [s] := by
  rw [Path.parse, pieces_scopeText hname hbody]
  refine bind_eq_ok.trans ?_
  simp only [mapM_parse_ending, Path.create_eq_ok]
  constructor
  · rintro ⟨-, ⟨firsts, s, hfirsts, hs, rfl⟩, hsegments⟩
    have hjoined : ['/'].intercalate (("class[name=" ++ className ++ "]").toList.splitOn '/') =
        ("class[name=" ++ className ++ "]").toList := List.intercalate_splitOn '/'
    generalize ("class[name=" ++ className ++ "]").toList.splitOn '/' = pieces at hfirsts hjoined
    cases pieces with
    | nil => simp [List.intercalate] at hjoined
    | cons piece others =>
      cases others with
      | nil =>
        rw [List.intercalate_singleton] at hjoined
        rw [hjoined, List.mapM_cons, String.ofList_toList] at hfirsts
        obtain ⟨first, hfirst, hfirsts⟩ := bind_eq_ok.1 hfirsts
        cases hfirsts
        obtain ⟨htoken, rfl⟩ := (parse_classText hclass).1 hfirst
        exact ⟨htoken, s, hs, hsegments.symm⟩
      | cons next rest =>
        -- A class name that breaks out of its segment moves the default scope.
        rw [List.mapM_cons, List.mapM_cons] at hfirsts
        obtain ⟨first, -, hfirsts⟩ := bind_eq_ok.1 hfirsts
        obtain ⟨others, hothers, hfirsts⟩ := bind_eq_ok.1 hfirsts
        obtain ⟨second, -, hothers⟩ := bind_eq_ok.1 hothers
        obtain ⟨more, -, hothers⟩ := bind_eq_ok.1 hothers
        cases hothers
        cases hfirsts
        have hwell := p.wellFormed
        rw [← hsegments] at hwell
        exact absurd hwell not_wellFormed_moved
  · rintro ⟨htoken, s, hs, hsegments⟩
    have hslash : '/' ∉ ("class[name=" ++ className ++ "]").toList := by
      simp [htoken.notMem (c := '/') (by decide)]
    refine ⟨_, ⟨[.withProperty "class" "name" className], s, ?_, hs, rfl⟩, hsegments.symm⟩
    rw [List.splitOn_eq_singleton hslash, List.mapM_cons, String.ofList_toList,
      (parse_classText hclass).2 ⟨htoken, rfl⟩]
    rfl

namespace Registry

variable {r : Registry}

/-- The path of a class with the scope that a registry reads. -/
def pathOfChoice (r : Registry) (className name body : String) : Except Fault Path := do
  let s ← r.parseSegment (name ++ ":" ++ body)
  r.pathFor className [s]

/-- The path that is read as a whole and then checked. -/
def pathOfText (r : Registry) (className name body : String) : Except Fault Path := do
  let p ← Path.parse (scopeText className name body)
  r.validate p
  return p

/-- The legal pairs that are written come to the path if the registry accepts it. -/
def ComesTo (r : Registry) (className name body : String) (p : Path) : Prop :=
  IsToken className ∧ IsToken name ∧
    ∃ pairs, WrittenPairs body pairs ∧ (∀ e ∈ pairs, IsToken e.1 ∧ IsToken e.2) ∧
      p.segments = Path.start className ++ [.ofPairs name pairs] ∧ r.validate p = .ok ()

theorem ComesTo.in_place (h : r.ComesTo className name body p) :
    ',' ∉ className.toList ∧ '/' ∉ name.toList ∧ '/' ∉ body.toList := by
  obtain ⟨hclass, hname, pairs, ⟨hpieces, -⟩, hpairs, -⟩ := h
  refine ⟨hclass.notMem (by decide), hname.notMem (by decide), ?_⟩
  have hbody : [','].intercalate (body.toList.splitOn ',') = body.toList :=
    List.intercalate_splitOn ','
  rw [← hbody]
  exact Text.notMem_intercalate (by decide) (Segment.notMem_of_pieces (by decide) hpairs hpieces)

theorem pathOfChoice_eq_ok (hcolon : ':' ∉ name.toList) (hkeys : (writtenKeys body).Nodup) :
    r.pathOfChoice className name body = .ok p ↔ r.ComesTo className name body p := by
  unfold pathOfChoice
  simp only [bind_eq_ok, pathFor_eq_ok, parseSegment_eq_ok hcolon]
  constructor
  · rintro ⟨s, ⟨-, pairs, hpairs, rfl⟩, hsegments, hvalid⟩
    have hnodup : (pairs.map Prod.fst).Nodup := hpairs.keys ▸ hkeys
    have hwell := p.wellFormed
    rw [hsegments, wellFormed_start] at hwell
    obtain ⟨hclass, htokens, -⟩ := hwell
    obtain ⟨hname, hlegal⟩ := htokens _ List.mem_cons_self
    refine ⟨hclass, hname, pairs, hpairs, fun e he => ?_, hsegments, hvalid⟩
    exact hlegal e ((Keyed.ofList_perm hnodup).mem_iff.2 he)
  · rintro ⟨-, -, pairs, hpairs, -, hsegments, hvalid⟩
    refine ⟨_, ⟨?_, pairs, hpairs, rfl⟩, hsegments, hvalid⟩
    rw [validate, (domain_of_start hsegments).2] at hvalid
    obtain ⟨i, hposition, -⟩ := validateFrom_cons.1 hvalid
    exact mem_names_of_position hposition

theorem pathOfText_eq_ok (hclass : ',' ∉ className.toList) (hname : '/' ∉ name.toList)
    (hbody : '/' ∉ body.toList) (hkeys : (writtenKeys body).Nodup) :
    r.pathOfText className name body = .ok p ↔ r.ComesTo className name body p := by
  unfold pathOfText
  simp only [bind_eq_ok, pure_eq_ok, parse_scopeText hclass hname hbody, Segment.parse_bracketed]
  constructor
  · rintro ⟨_, ⟨hclass, s, ⟨pairs, hpairs, -, hname, hlegal, rfl⟩, hsegments⟩, ⟨⟩, hvalid, rfl⟩
    exact ⟨hclass, hname, pairs, hpairs, hlegal, hsegments, hvalid⟩
  · rintro ⟨hclass, hname, pairs, hpairs, hlegal, hsegments, hvalid⟩
    have hnodup : (pairs.map Prod.fst).Nodup := hpairs.keys ▸ hkeys
    exact ⟨p, ⟨hclass, _, ⟨pairs, hpairs, hnodup, hname, hlegal, rfl⟩, hsegments⟩, (), hvalid, rfl⟩

/-- The registry reads its own text as a path if the other text stays in its place and gives the
same path. No key may be written twice. -/
theorem choice_eq_text (hcolon : ':' ∉ name.toList) (hkeys : (writtenKeys body).Nodup) :
    r.pathOfChoice className name body = .ok p ↔
      (',' ∉ className.toList ∧ '/' ∉ name.toList ∧ '/' ∉ body.toList) ∧
        r.pathOfText className name body = .ok p := by
  rw [pathOfChoice_eq_ok hcolon hkeys]
  constructor
  · intro h
    obtain ⟨hclass, hname, hbody⟩ := h.in_place
    exact ⟨h.in_place, (pathOfText_eq_ok hclass hname hbody hkeys).2 h⟩
  · rintro ⟨⟨hclass, hname, hbody⟩, htext⟩
    exact (pathOfText_eq_ok hclass hname hbody hkeys).1 htext

end Registry

end Scope

namespace Sample

open Scope

/-- The pairs may come in any order, with empty pieces between them. -/
theorem alice_given_both_ways :
    ∃ p, p.segments = Path.start "App" ++ [user] ∧
      Registry.standard.pathOfChoice "App" "user" "team=core,,name=alice" = .ok p ∧
      Registry.standard.pathOfText "App" "user" "team=core,,name=alice" = .ok p := by
  let p : Path := ⟨Path.start "App" ++ [user], by decide⟩
  have hchoice : Registry.standard.pathOfChoice "App" "user" "team=core,,name=alice" = .ok p := by
    decide +kernel
  have htext := (Registry.choice_eq_text (by decide) (by decide)).1 hchoice
  exact ⟨p, rfl, hchoice, htext.2⟩

/-- In the text of a path, a body, a name and a class name can break out of their places. None of
them is a token, so the registry refuses them. -/
theorem texts_break_out :
    (∃ p, Registry.standard.pathOfText "App" "user" "name=x]/instance[name=y" = .ok p ∧
      Registry.standard.pathOfChoice "App" "user" "name=x]/instance[name=y" =
        .error (.reservedChar ']' .propertyValue "x]/instance[name=y")) ∧
    (∃ p, Registry.standard.pathOfText "App,team=x" "user" "name=y" = .ok p ∧
      Registry.standard.pathOfChoice "App,team=x" "user" "name=y" =
        .error (.reservedChar ',' .propertyValue "App,team=x")) ∧
    ∃ p, (Registry.standard.afterCall ⟨"global/user", []⟩).pathOfText "App" "global/user" "name=x" =
        .ok p ∧
      (Registry.standard.afterCall ⟨"global/user", []⟩).pathOfChoice "App" "global/user" "name=x" =
        .error (.reservedChar '/' .scopeName "global/user") := by
  refine ⟨⟨⟨_, ?_⟩, rfl, rfl⟩, ⟨⟨_, ?_⟩, rfl, rfl⟩, ⟨_, ?_⟩, rfl, rfl⟩
  all_goals decide +kernel

end Sample

end ScopedConfig
