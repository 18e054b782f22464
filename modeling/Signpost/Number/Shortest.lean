import Signpost.Number.Binary64

/-!
The shortest decimal that reads back as a number, and its text. Of the decimals with the fewest
digits that round to the number, the nearest is taken.
-/

namespace Signpost.Binary64

/-- Comparison of `a * 10 ^ tens` with `b * 2 ^ twos`. -/
def decimalLe (a : Nat) (tens : Int) (b : Nat) (twos : Int) : Bool :=
  let (n, d) := fraction a 0 tens
  let (m, e) := fraction b twos 0
  n * e ≤ m * d

def decimalGe (a : Nat) (tens : Int) (b : Nat) (twos : Int) : Bool :=
  let (n, d) := fraction a 0 tens
  let (m, e) := fraction b twos 0
  m * d ≤ n * e

/-- The decimal rounds to the number: it lies between the midpoints to the neighbours, which
themselves round to an even significand. Below a power of two the lower neighbour is only half as
far. -/
def readsBack (x : Binary64) (digits : Nat) (tens : Int) : Bool :=
  let closeBelow := x.significand = wordCount 52 ∧ leastExponent < x.exponent
  let low := if closeBelow then 4 * x.significand - 1 else 4 * x.significand - 2
  let high := 4 * x.significand + 2
  let twos := x.exponent - 2
  if x.significand % 2 = 0 then decimalGe digits tens low twos && decimalLe digits tens high twos
  else !decimalLe digits tens low twos && !decimalGe digits tens high twos

/-- The power of ten in front of the leading digit, sought upwards or downwards from a guess. -/
def leadingPower (x : Binary64) : (fuel : Nat) → (guess : Int) → Int
  | 0, guess => guess
  | fuel + 1, guess =>
    if !decimalLe 1 guess x.significand x.exponent then leadingPower x fuel (guess - 1)
    else if decimalLe 1 (guess + 1) x.significand x.exponent then leadingPower x fuel (guess + 1)
    else guess

/-- The nearer of two neighbouring decimals; a tie goes to the even one. -/
def nearerNeighbour (x : Binary64) (digits : Nat) (tens : Int) : Nat :=
  let (n, d) := fraction x.significand x.exponent (-tens)
  let twice := 2 * n
  let middle := (2 * digits + 1) * d
  if twice < middle then digits
  else if middle < twice then digits + 1
  else if digits % 2 = 0 then digits else digits + 1

def withDigits? (x : Binary64) (leading : Int) (count : Nat) : Option (Nat × Int) :=
  let tens := leading - (count - 1)
  let (n, d) := fraction x.significand x.exponent (-tens)
  let below := n / d
  match readsBack x below tens, readsBack x (below + 1) tens with
  | true, true => some (nearerNeighbour x below tens, tens)
  | true, false => some (below, tens)
  | false, true => some (below + 1, tens)
  | false, false => none

def dropZeros : (fuel : Nat) → Nat → Int → Nat × Int
  | 0, n, tens => (n, tens)
  | fuel + 1, n, tens =>
    if n ≠ 0 ∧ n % 10 = 0 then dropZeros fuel (n / 10) (tens + 1) else (n, tens)

/-- The shortest decimal that reads back: digits and power of ten. -/
def shortest (x : Binary64) : Nat × Int :=
  let leading := leadingPower x 400 (((x.significand.log2 : Int) + x.exponent) * 3 / 10)
  match ((List.range 17).map (· + 1)).findSome? (withDigits? x leading) with
  | some (n, tens) => dropZeros 17 n tens
  | none => (x.significand, 0)

def signedText (i : Int) : Text :=
  if i < 0 then '-' :: Text.decimal i.natAbs else Text.decimal i.natAbs

/-- The text of a number: with a point between 10⁻⁵ and 10¹⁶, with an exponent beyond. -/
def text (x : Binary64) : Text :=
  if x.significand = 0 then ['0', '.', '0']
  else
    let (n, tens) := x.shortest
    let digits := Text.decimal n
    let point : Int := digits.length + tens
    let zeros (count : Int) : Text := List.replicate count.toNat '0'
    if 0 ≤ tens ∧ point ≤ 16 then digits ++ zeros tens ++ ['.', '0']
    else if 0 < point ∧ point ≤ 16 then digits.take point.toNat ++ '.' :: digits.drop point.toNat
    else if -5 < point ∧ point ≤ 0 then ['0', '.'] ++ zeros (-point) ++ digits
    else
      match digits with
      | [d] => [d, 'e'] ++ signedText (point - 1)
      | d :: more => d :: '.' :: more ++ 'e' :: signedText (point - 1)
      | [] => []

end Signpost.Binary64
