import Signpost.Text.Blank
import Signpost.Unicode.CaseFold
import Signpost.Unicode.Category

/-!
Sets of characters, as patterns name them: intervals, Unicode properties, and their Boolean
combinations. `CharSet.mem` decides membership; it commutes with each combination by definition.
-/

namespace Signpost

open Unicode

/-- A class of characters that the Unicode standard defines. -/
inductive CharProperty where
  | digit
  | blank
  | word
  | alphabetic
  | ofCategories (ks : List Category)
  | ofRuns (runs : List (Nat × Nat))
  deriving Repr, DecidableEq

def CharProperty.holds : CharProperty → Char → Bool
  | .digit, c => isDecimalDigit c
  | .blank, c => Text.isBlank c
  | .word, c => isWordChar c
  | .alphabetic, c => isAlphabetic c
  | .ofCategories ks, c => ks.contains (category c)
  | .ofRuns runs, c => inRuns runs c.toNat

inductive CharSet where
  | empty
  | range (first last : Char)
  | property (p : CharProperty)
  | union (a b : CharSet)
  | inter (a b : CharSet)
  | compl (a : CharSet)
  /-- Every case variant of a member. -/
  | variants (a : CharSet)
  /-- The members and, of ASCII letters, the one of the other case. -/
  | asciiVariants (a : CharSet)
  deriving Repr, DecidableEq

namespace CharSet

def mem : CharSet → Char → Bool
  | empty, _ => false
  | range first last, c => first ≤ c && c ≤ last
  | property p, c => p.holds c
  | union a b, c => a.mem c || b.mem c
  | inter a b, c => a.mem c && b.mem c
  | compl a, c => !a.mem c
  | variants a, c => (caseVariants c).any a.mem
  | asciiVariants a, c => a.mem c || (c.isAlpha && (a.mem c.toLower || a.mem c.toUpper))

def single (c : Char) : CharSet :=
  range c c

def all : CharSet :=
  compl empty

def diff (a b : CharSet) : CharSet :=
  inter a (compl b)

def symmDiff (a b : CharSet) : CharSet :=
  union (diff a b) (diff b a)

def ofRanges (rs : List (Char × Char)) : CharSet :=
  rs.foldr (fun r s => union (range r.1 r.2) s) empty

end CharSet

end Signpost
