/-!
Integers that fit into words of so many bits, with and without a sign.
-/

namespace Signpost

def wordCount (bits : Nat) : Nat :=
  Nat.pow 2 bits

/-- The integer fits into a word without a sign. -/
def fitsUnsigned (bits : Nat) (i : Int) : Bool :=
  0 ≤ i && i < wordCount bits

def fitsSigned (bits : Nat) (i : Int) : Bool :=
  -(wordCount (bits - 1) : Int) ≤ i && i < wordCount (bits - 1)

end Signpost
