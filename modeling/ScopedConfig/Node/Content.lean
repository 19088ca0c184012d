import ScopedConfig.Node

/-!
# Content

The fingerprint is a canonical text of a node's content. Names and texts stand between quotes, so
nothing in them can be taken for a separator; the items of a set are sorted by their own
fingerprints. Of the metadata, only the type names of complex nodes count.

Two nodes have the same content when their trees agree in everything but metadata. The order of a
set's items does not count.
-/

namespace ScopedConfig

/-! ## Fingerprints -/

namespace Fingerprint

/-- A backslash goes before each quote and backslash. -/
def escape (c : Char) : List Char := if c = '"' ∨ c = '\\' then ['\\', c] else [c]

def quoted (s : String) : List Char := '"' :: s.toList.flatMap escape ++ ['"']

def insertPart (part : List Char) : List (List Char) → List (List Char)
  | [] => [part]
  | p :: rest => if (compare part p).isLE then part :: p :: rest else p :: insertPart part rest

/-- The parts in the order of their code points. -/
def sortParts : List (List Char) → List (List Char)
  | [] => []
  | p :: rest => insertPart p (sortParts rest)

/-- The parts between the two characters, with commas between them. -/
def enclosed (opening closing : Char) (parts : List (List Char)) : List Char :=
  opening :: [','].intercalate parts ++ [closing]

def absent : List Char := "null".toList

end Fingerprint

namespace Node

open Fingerprint

mutual

def fingerprintChars : Node → List Char
  | simple _ none => absent
  | simple _ (some t) => quoted t
  | complex i ps _ => quoted i.typeName ++ '\x7b' :: fieldChars ':' ps ++ ['\x7d']
  | list _ none => absent
  | list _ (some xs) => enclosed '[' ']' (itemParts xs)
  | set _ none => absent
  | set _ (some xs) => enclosed '<' '>' (sortParts (itemParts xs))
  | map _ none => absent
  | map _ (some es) => '(' :: fieldChars '=' es ++ [')']

def fieldChars (mark : Char) : List (String × Node) → List Char
  | [] => []
  | (k, n) :: rest => quoted k ++ mark :: n.fingerprintChars ++ ';' :: fieldChars mark rest

def itemParts : List Node → List (List Char)
  | [] => []
  | n :: rest => n.fingerprintChars :: itemParts rest

end

def fingerprint (n : Node) : String := String.ofList n.fingerprintChars

/-! ## Equal content -/

mutual

def sameContent : Node → Node → Bool
  | simple _ a, simple _ b => a == b
  | complex _ ps _, complex _ qs _ => ps.length == qs.length && sameFields ps qs
  | list _ none, list _ none => true
  | list _ (some xs), list _ (some ys) => sameItems xs ys
  | set _ none, set _ none => true
  | set _ (some xs), set _ (some ys) =>
    Fingerprint.sortParts (itemParts xs) == Fingerprint.sortParts (itemParts ys)
  | map _ none, map _ none => true
  | map _ (some es), map _ (some fs) => es.length == fs.length && sameFields es fs
  | _, _ => false
termination_by structural a => a

/-- Each of the first fields has a counterpart with the same content. -/
def sameFields : List (String × Node) → List (String × Node) → Bool
  | [], _ => true
  | (k, n) :: rest, others =>
    (match others.lookup k with
      | some m => n.sameContent m
      | none => false) && sameFields rest others
termination_by structural a => a

def sameItems : List Node → List Node → Bool
  | [], [] => true
  | m :: as, n :: bs => m.sameContent n && sameItems as bs
  | _, _ => false
termination_by structural a => a

end

end Node

end ScopedConfig
