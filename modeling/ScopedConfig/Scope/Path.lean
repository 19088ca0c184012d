import ScopedConfig.Scope.Segment

/-!
# Scope paths

A path is the place of one snapshot: the class scope, the default scope, then domain scopes from the
most generic to the most specific. The type holds legal paths only: `Path.create` is the check, and
every longer or shorter path is made from it.
-/

namespace ScopedConfig.Scope

/-! ## Legal chains of segments -/

/-- The first fault of the chain's beginning. -/
def headFault? : List Segment → Option Fault
  | [] => some .noSegments
  | first :: rest =>
    if first.name != "class" then some (.classExpected first.name)
    else if (first.property? "name").isNone then some .classUnnamed
    else
      match rest with
      | [] => none
      | second :: _ =>
        if second.name != "default" then some (.defaultExpected second.name) else none

/-- The first segment with an illegal token or with a name that is in `seen` or occurs before. -/
def chainFault? (seen : List String) : List Segment → Option Fault
  | [] => none
  | s :: rest =>
    s.fault?.or <|
      if seen.contains s.name then some (.repeatedScope s.name)
      else chainFault? (s.name :: seen) rest

def pathFault? (segments : List Segment) : Option Fault :=
  (headFault? segments).or (chainFault? [] segments)

theorem chainFault?_take {seen : List String} {l : List Segment} (n : Nat)
    (h : chainFault? seen l = none) : chainFault? seen (l.take n) = none := by
  induction l generalizing seen n with
  | nil => simpa using h
  | cons s rest ih =>
    cases n with
    | zero => rfl
    | succ n =>
      simp only [List.take_succ_cons, chainFault?, Option.or_eq_none_iff] at h ⊢
      refine ⟨h.1, ?_⟩
      split at h
      case isTrue => simp at h
      case isFalse hs =>
        rw [if_neg hs]
        exact ih n h.2

theorem headFault?_take {l : List Segment} (n : Nat) (hn : n ≠ 0) (h : headFault? l = none) :
    headFault? (l.take n) = none := by
  match l, n with
  | _, 0 => exact absurd rfl hn
  | [], _ => simp [headFault?] at h
  | [a], n + 1 => simpa using h
  | a :: b :: rest, 1 =>
    simp only [headFault?] at h
    simp only [List.take_succ_cons, List.take_zero, headFault?]
    by_cases hc : a.name != "class"
    · simp [hc] at h
    · by_cases hn : (a.property? "name").isNone
      · simp [hc, hn] at h
      · simp [hc, hn]
  | a :: b :: rest, n + 2 => simpa [headFault?] using h

theorem pathFault?_take {l : List Segment} (n : Nat) (hn : n ≠ 0) (h : pathFault? l = none) :
    pathFault? (l.take n) = none := by
  simp only [pathFault?, Option.or_eq_none_iff] at h ⊢
  exact ⟨headFault?_take n hn h.1, chainFault?_take n h.2⟩

/-! ## Paths -/

structure Path where
  segments : List Segment
  legal : pathFault? segments = none
deriving DecidableEq

namespace Path

theorem segments_ne_nil (p : Path) : p.segments ≠ [] := by
  intro h
  have := p.legal
  rw [h] at this
  simp [pathFault?, headFault?] at this

def create (segments : List Segment) : Except Fault Path :=
  match h : pathFault? segments with
  | some fault => .error fault
  | none => .ok ⟨segments, h⟩

/-- The class and its code-supplied defaults. -/
def forClass (className : String) : Except Fault Path :=
  create [.withProperty "class" "name" className, .named "default"]

def append (p : Path) (s : Segment) : Except Fault Path := create (p.segments ++ [s])

/-- Appends the segments one by one. -/
def appendAll : Path → List Segment → Except Fault Path
  | p, [] => .ok p
  | p, s :: rest => (p.append s).bind fun q => appendAll q rest

/-- The first `n + 1` segments. -/
def upTo (p : Path) (n : Nat) : Path :=
  ⟨p.segments.take (n + 1), pathFault?_take (n + 1) (by omega) p.legal⟩

/-- All but the last segment; a path of one segment has no parent. -/
def parent? (p : Path) : Option Path :=
  match p.segments.length with
  | 0 | 1 => none
  | n + 2 => some (p.upTo n)

/-- All paths that this one extends, the most generic first, and the path itself. -/
def ancestry (p : Path) : List Path := (List.range p.segments.length).map p.upTo

def last (p : Path) : Segment := p.segments.getLast p.segments_ne_nil

/-- The name of the class that the path belongs to. -/
def className (p : Path) : String :=
  ((p.segments.head p.segments_ne_nil).property? "name").getD ""

/-- The path ends in the class or default scope, where only defaults are defined. -/
def isStructural (p : Path) : Bool := p.last.isStructural

/-- The segments after class and default. -/
def domain (p : Path) : List Segment := p.segments.drop 2

/-- The path is `ancestor` or extends it. -/
def extends? (p ancestor : Path) : Bool := ancestor.segments.isPrefixOf p.segments

def segment? (p : Path) (name : String) : Option Segment :=
  p.segments.find? fun s => s.name == name

/-- Some segment has the name and carries the properties. -/
def mentions (p : Path) (name : String) (properties : List (String × String)) : Bool :=
  p.segments.any fun s => s.carries name properties

/-! ## Text form -/

def text (p : Path) : String := Text.join '/' (p.segments.map Segment.text)

/-- Blanks around the text do not count. The segments are read first, from left to right, and then
checked as a chain. -/
def parse (whole : String) : Except Fault Path := do
  let pieces := (Text.trimChars whole.toList).splitOn '/'
  create (← pieces.mapM fun piece => Segment.parse (String.ofList piece))

/-! ## Order -/

def order (a b : Path) : Ordering := List.compareLex compare a.segments b.segments

instance : Ord Path := ⟨order⟩

instance : Std.TransOrd Path := by
  have h : Std.TransCmp (List.compareLex (compare (α := Segment))) := inferInstance
  exact { eq_swap := h.eq_swap, isLE_trans := h.isLE_trans }

instance : Std.LawfulEqOrd Path where
  eq_of_compare {a b} h := by
    obtain ⟨s, _⟩ := a
    obtain ⟨t, _⟩ := b
    have lawful : Std.LawfulEqCmp (List.compareLex (compare (α := Segment))) := inferInstance
    have : s = t := lawful.eq_of_compare h
    subst this
    rfl

end Path

end ScopedConfig.Scope
